import PhysMem.Address
import PhysMem.Bits.Packed
import PhysMem.Bits.Word
import PhysMem.Block
import PhysMem.Block.Drive
import PhysMem.Block.Error
import PhysMem.Block.Kind
import PhysMem.Config
import PhysMem.Fault
import PhysMem.Frame.Bootstrap
import PhysMem.Frame.Coremap
import PhysMem.Frame.Descriptor
import PhysMem.Frame.Error
import PhysMem.Frame.Owner
import PhysMem.Frame.Placement
import PhysMem.Frame.Verify
import PhysMem.Kernel
import PhysMem.Lock
import PhysMem.Lock.Interrupts
import PhysMem.Memory
import PhysMem.Memory.Operation
import PhysMem.Memory.Probe
import PhysMem.Memory.Rank
import PhysMem.Memory.Task
import PhysMem.Notice
import PhysMem.Numeral
import PhysMem.Page
import PhysMem.Page.Entry
import PhysMem.Script
import PhysMem.Script.Play
import PhysMem.Sector
import PhysMem.Swap
import PhysMem.Swap.Device
import PhysMem.Swap.Error
import PhysMem.Swap.SlotMap
import PhysMem.Proofs.Bits
import PhysMem.Proofs.BoolArray
import PhysMem.Proofs.SlotMap
import PhysMem.Proofs.BusySlots
import PhysMem.Proofs.Chain
import PhysMem.Proofs.Roles
import PhysMem.Proofs.Integrity
import PhysMem.Proofs.Restores
import PhysMem.Proofs.Teardown
import PhysMem.Proofs.Quiescence
import PhysMem.Proofs.LateCleanup
import PhysMem.Proofs.Telling
import PhysMem.Proofs.Ownership
import PhysMem.Proofs.Queue
import PhysMem.Proofs.Fifo
import PhysMem.Proofs.Atomicity
import PhysMem.Proofs.BringBack
import PhysMem.Proofs.Undo
import PhysMem.Proofs.Alone
import PhysMem.Proofs.EvictAlone
import PhysMem.Proofs.PlainQueue
import PhysMem.Proofs.PartialMap
import PhysMem.Proofs.TeardownOrder
import PhysMem.Proofs.Conservation
import PhysMem.Proofs.Orphans
import PhysMem.Proofs.TlbSlots
import PhysMem.Proofs.SlotTransfers
import PhysMem.Proofs.Stores
import PhysMem.Proofs.NextFit
import PhysMem.Proofs.Steals
import PhysMem.Proofs.Sizing
import PhysMem.Proofs.Verification
import PhysMem.Proofs.Residency
import PhysMem.Proofs.Answers
import PhysMem.Proofs.Pressure
import PhysMem.Proofs.FirstFit
import PhysMem.Proofs.FlatDisk
import PhysMem.Proofs.SectorArray
import PhysMem.Proofs.Entries
import PhysMem.Proofs.Extent
import PhysMem.Proofs.Locks
import PhysMem.Proofs.HeldOff
