import GpuTelem.Foundations.Machine
import GpuTelem.Foundations.Table
import GpuTelem.Foundations.CyclicArray
import GpuTelem.Foundations.BroadcastLog
import GpuTelem.Foundations.Linearizability
import GpuTelem.Foundations.Bracket
import GpuTelem.Foundations.LittleEndian
import GpuTelem.Foundations.StructFormat
import GpuTelem.Foundations.Decimal
import GpuTelem.Uapi
import GpuTelem.RingBuf
import GpuTelem.RingBuf.Batch
import GpuTelem.Readers
import GpuTelem.Readers.Refinement
import GpuTelem.Readers.Accounting
import GpuTelem.Readers.Isolation
import GpuTelem.Spinlock
import GpuTelem.Spinlock.Tracks
import GpuTelem.Spinlock.Linearizable
import GpuTelem.Spinlock.Publication
import GpuTelem.Spinlock.Progress
import GpuTelem.Spinlock.Bounds
import GpuTelem.Collector
import GpuTelem.Collector.Sysfs
import GpuTelem.Collector.Hwmon
import GpuTelem.Read
import GpuTelem.Device
import GpuTelem.Device.Wakeup
import GpuTelem.Device.Call
import GpuTelem.Device.Fault
import GpuTelem.Device.Result
import GpuTelem.Device.Poll
import GpuTelem.Device.Progress
import GpuTelem.Device.Padding
import GpuTelem.Device.Stream
import GpuTelem.Device.Samples
import GpuTelem.KernelModule
import GpuTelem.KernelModule.Lifetime
import GpuTelem.KernelModule.Resources
import GpuTelem.KernelModule.Unload
import GpuTelem.KernelModule.Capacity
import GpuTelem.KernelModule.Rate
import GpuTelem.Consumer
import GpuTelem.Consumer.Sentinels
import GpuTelem.Consumer.Samples
import GpuTelem.Consumer.Main
import GpuTelem.CReader
import GpuTelem.Capture
import GpuTelem.Interval
import GpuTelem.EndToEnd
import GpuTelem.NvmlValidate
