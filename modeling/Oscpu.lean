import Oscpu.Lib.Run
import Oscpu.Lib.Forward
import Oscpu.Lib.Stage
import Oscpu.Lib.Bytes
import Oscpu.Lib.Signed
import Oscpu.Lib.Rv64
import Oscpu.Lib.Encode
import Oscpu.Lib.Partial
import Oscpu.Lib.Server
import Oscpu.Rtl.Config
import Oscpu.Rtl.Mux
import Oscpu.Rtl.Alu
import Oscpu.Rtl.Reg
import Oscpu.Rtl.Reset
import Oscpu.Rtl.Decode
import Oscpu.Diff.Units
import Oscpu.Diff.Reference
import Oscpu.Diff.SimTop
import Oscpu.Diff.Refine
import Oscpu.Diff.Runs
import Oscpu.Diff.Flow
import Oscpu.Diff.StoreData
import Oscpu.Diff.Commit
import Oscpu.Diff.ByteMemory
import Oscpu.Axi.Units
import Oscpu.Axi.Csr
import Oscpu.Axi.AxiRw
import Oscpu.Axi.SimTop
import Oscpu.Axi.System
import Oscpu.Axi.Reset
import Oscpu.Axi.Occupancy
import Oscpu.Axi.Access
import Oscpu.Axi.Bookkeeping
import Oscpu.Axi.ZeroRegister
import Oscpu.Axi.Stability
import Oscpu.Axi.Trap
import Oscpu.Axi.Redirect
import Oscpu.Axi.Vector
import Oscpu.Axi.Mstatus
import Oscpu.Axi.CsrDiff
import Oscpu.Axi.CsrIns
import Oscpu.Axi.CsrValues
import Oscpu.Axi.Lanes
import Oscpu.Axi.Delivery
import Oscpu.Axi.Precise
import Oscpu.Axi.Order
import Oscpu.Axi.Restart
import Oscpu.Axi.Jump
import Oscpu.Axi.Chain
import Oscpu.Axi.Payloads
import Oscpu.Axi.ClintRegs
import Oscpu.Axi.Uart
import Oscpu.Axi.Bus
import Oscpu.Axi.Transactions
import Oscpu.Axi.RoundTrip
import Oscpu.Axi.Errors
import Oscpu.Axi.Bursts
import Oscpu.Axi.MemoryPaths
import Oscpu.Axi.Reference
import Oscpu.Axi.WriteBack
import Oscpu.Axi.Younger
import Oscpu.Axi.StorePath
import Oscpu.Axi.Course
import Oscpu.Axi.Simulation
import Oscpu.Axi.Trapping
import Oscpu.Axi.Latency
import Oscpu.Axi.LostRead
import Oscpu.Isa.Execute
import Oscpu.Isa.Compare
import Oscpu.Isa.Jump
import Oscpu.Isa.Multiply
import Oscpu.Isa.Divide
import Oscpu.Isa.Encode
import Oscpu.Emu.Axi4
import Oscpu.Emu.Cosim
import Oscpu.Emu.Ram
import Oscpu.Emu.Bench
import Oscpu.Emu.ReadTraffic
import Oscpu.Emu.WriteTraffic
import Oscpu.Emu.Emulator
import Oscpu.Emu.SlaveRel
import Oscpu.Emu.Refine
import Oscpu.Emu.Simulation
import Oscpu.Emu.Crossing
import Oscpu.Emu.Follow
import Oscpu.Harness.CpuDiff
import Oscpu.Lib.Pattern
import Oscpu.Nemu.Decode
import Oscpu.Nemu.Exec
import Oscpu.Nemu.Ref
import Oscpu.Nemu.Stores
import Oscpu.Nemu.Fetch
import Oscpu.Nemu.Rvm
