import Embassy.Lib.Run
import Embassy.Lib.Script
import Embassy.Lib.Wrap
import Embassy.Lib.Seg
import Embassy.Lib.Stream
import Embassy.Lib.Future
import Embassy.Lib.Bytes
import Embassy.Lib.BatchStack
import Embassy.Rtc.Driver
import Embassy.Rtc.Clock
import Embassy.Rtc.Early
import Embassy.Rtc.Lost
import Embassy.Rtc.Overflow
import Embassy.Executor.RunQueue
import Embassy.Executor.Machine
import Embassy.Executor.Queue
import Embassy.Executor.Wake
import Embassy.Executor.Slot
import Embassy.Executor.Timers
import Embassy.Executor.RunQueueView
import Embassy.Executor.TimerQueue
import Embassy.Executor.TimerDrain
import Embassy.Executor.Returns
import Embassy.Executor.Deadline
import Embassy.Executor.Owner
import Embassy.Executor.Fair
import Embassy.Executor.Finish
import Embassy.Executor.Signal
import Embassy.Executor.Sleep
import Embassy.Executor.Timeout
import Embassy.Executor.Cortex
import Embassy.Std.Signaler
import Embassy.Std.Sleep
import Embassy.Extras.RingBuffer
import Embassy.Extras.UsbSerial
import Embassy.Extras.UsbPipe
import Embassy.Extras.UsbPackets
import Embassy.Extras.UsbRead
import Embassy.Extras.UsbWakeups
import Embassy.Extras.CdcAcm
import Embassy.Extras.Trampoline
import Embassy.Extras.Peripheral
import Embassy.Extras.Preemption
import Embassy.Util.Waker
import Embassy.Util.Signal
import Embassy.Util.InterruptFuture
import Embassy.Util.Portal
import Embassy.Nrf.BufferedUarte
import Embassy.Nrf.Receive
import Embassy.Nrf.Transmit
import Embassy.Nrf.Wakeups
import Embassy.Nrf.Uarte
import Embassy.Nrf.UarteMemory
import Embassy.Nrf.Gpiote
import Embassy.Nrf.GpioteChannels
import Embassy.Nrf.Qspi
import Embassy.Io.Traits
import Embassy.Io.Reads
import Embassy.Io.ReadWhile
import Embassy.Io.ReadLine
import Embassy.Io.Copy
import Embassy.Io.ReadExact
import Embassy.Io.Drain
import Embassy.Time.Instant
import Embassy.Executor.Timer
import Embassy.Rp.Uart
import Embassy.Rp.Pll
import Embassy.Stm32.Serial
import Embassy.Io.Forward
import Embassy.Nrf.Progress
import Embassy.Nrf.ReadHalf
import Embassy.Nrf.WriteHalf
import Embassy.Nrf.Pipelines
import Embassy.Nrf.EndEvent
import Embassy.Nrf.Spim
import Embassy.Stm32.Exti
