import Mathlib.Data.Bool.Basic

/-!
# Elastic pipeline registers

A register that holds at most one item, with the handshake the pipelines of this repository use: it
is ready when it is empty or when the register after it is, it then takes over the valid bit of the
register before it, and its data is loaded by an enable of its own.
-/

namespace Oscpu.Lib

/-- A pipeline register: the valid bit and the data, which stays when the bit falls. -/
structure Stage (α : Type*) where
  valid : Bool
  data : α

namespace Stage

variable {α : Type*}

/-- `ready_o = ~valid_o || ready_i`. -/
def ready (s : Stage α) (down : Bool) : Bool := !s.valid || down

/-- The valid bit after an edge: reset, take over the bit before, or hold. -/
def nextValid (s : Stage α) (rst ready up : Bool) : Bool :=
  if rst then false else if ready then up else s.valid

@[simp] theorem ready_true (s : Stage α) : s.ready true = true := by simp [ready]

/-! ## A register as a queue of one item -/

/-- The register after an edge at which `up` offers `x`. -/
def step (s : Stage α) (ready up : Bool) (x : α) : Stage α where
  valid := s.nextValid false ready up
  data := if up && ready then x else s.data

/-- The item in the register. -/
def items (s : Stage α) : List α := if s.valid then [s.data] else []

/-- At a clock edge a register takes what it accepts and gives what is taken from it, in order. A
full register must be ready exactly when its item is taken. -/
theorem items_step {s : Stage α} {ready take : Bool} (up : Bool) (x : α)
    (hready : s.valid = true → ready = take) :
    s.items ++ (if up && ready then [x] else []) =
      (if s.valid && take then [s.data] else []) ++ (s.step ready up x).items := by
  unfold items step nextValid
  cases hv : s.valid with
  | true =>
    rw [hready hv]
    cases take <;> cases up <;> simp
  | false => cases ready <;> cases up <;> simp

/-- The same for a register that holds a list of items, as when a bubble counts as none. -/
def flat (s : Stage (List α)) : List α := if s.valid then s.data else []

theorem flat_step {s : Stage (List α)} {ready take : Bool} (up : Bool) (x : List α)
    (hready : s.valid = true → ready = take) :
    s.flat ++ (if up && ready then x else []) =
      (if s.valid && take then s.data else []) ++ (s.step ready up x).flat := by
  have h := congrArg List.flatten (items_step up x hready)
  have hflat (s : Stage (List α)) : s.items.flatten = s.flat := by
    unfold items flat
    split <;> simp
  have hone (b : Bool) (y : List α) : (if b then [y] else []).flatten = if b then y else [] := by
    cases b <;> simp
  rw [List.flatten_append, List.flatten_append, hflat, hflat, hone, hone] at h
  exact h

end Stage

end Oscpu.Lib
