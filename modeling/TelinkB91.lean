import TelinkB91.Lib.Runs
import TelinkB91.Lib.NorFlash
import TelinkB91.Lib.LiveArray
import TelinkB91.Lib.SlotLog
import TelinkB91.Lib.Circular
import TelinkB91.Lib.BubbleSort
import TelinkB91.Lib.Nibbles
import TelinkB91.Lib.Ring
import TelinkB91.Lib.ByteMemory
import TelinkB91.Lib.RoundLine
import TelinkB91.Lib.DropOldest
import TelinkB91.Lib.MaskedRing
import TelinkB91.Lib.Framing
import TelinkB91.Lib.Biquad
import TelinkB91.Lib.WordBits
import TelinkB91.Lib.SixWheel
import TelinkB91.Pairing.Bonds
import TelinkB91.Pairing.Log
import TelinkB91.Pairing.Boot
import TelinkB91.Pairing.Persistence
import TelinkB91.Pairing.PowerCut
import TelinkB91.Pairing.Deletion
import TelinkB91.SoftTimer.Timer
import TelinkB91.SoftTimer.Table
import TelinkB91.SoftTimer.Drain
import TelinkB91.SoftTimer.Order
import TelinkB91.SoftTimer.Complete
import TelinkB91.SoftTimer.Wakeup
import TelinkB91.SoftTimer.Reentry
import TelinkB91.Identity.MacAddress
import TelinkB91.Fifo.MyFifo
import TelinkB91.Fifo.Queue
import TelinkB91.Fifo.ReadBack
import TelinkB91.Usb.Hid
import TelinkB91.Usb.Order
import TelinkB91.Usb.Keyboard
import TelinkB91.Usb.Release
import TelinkB91.Usb.Mouse
import TelinkB91.Usb.Control
import TelinkB91.Usb.Chunks
import TelinkB91.Usb.Cdc
import TelinkB91.Keyboard.KeyChange
import TelinkB91.Keyboard.Matrix
import TelinkB91.Keyboard.MatrixRing
import TelinkB91.Keyboard.Afterglow
import TelinkB91.Keyboard.Debounce
import TelinkB91.Keyboard.Button
import TelinkB91.Keyboard.Ghost
import TelinkB91.Audio.Adpcm
import TelinkB91.Audio.Agreement
import TelinkB91.Audio.LockStep
import TelinkB91.Audio.GoogleVoice
import TelinkB91.Audio.Fragments
import TelinkB91.Audio.Sessions
import TelinkB91.Audio.HidVoice
import TelinkB91.Audio.Abuf
import TelinkB91.Audio.Gapless
import TelinkB91.Audio.Arrival
import TelinkB91.Audio.Unread
import TelinkB91.Audio.Quantizer
import TelinkB91.Audio.Accesses
import TelinkB91.Audio.Equaliser
import TelinkB91.Audio.VoiceKey
import TelinkB91.Serial.Receive
import TelinkB91.Serial.Transmit
import TelinkB91.Serial.Progress
import TelinkB91.Serial.Events
import TelinkB91.Serial.Commands
import TelinkB91.Serial.AttWrite
import TelinkB91.Ir.Learn
import TelinkB91.Ir.Bound
import TelinkB91.Ir.Waveform
import TelinkB91.Ir.Replay
import TelinkB91.Ir.Once
import TelinkB91.Ir.Carrier
import TelinkB91.Ir.App
import TelinkB91.Ir.Nec
import TelinkB91.Ir.Shortest
import TelinkB91.Flash.Write
import TelinkB91.Flash.FwCheck
import TelinkB91.Flash.FwReads
import TelinkB91.Flash.Lock
import TelinkB91.Debug.Print
import TelinkB91.Debug.Output
import TelinkB91.Debug.Uart
import TelinkB91.Debug.Command
import TelinkB91.Debug.Packets
import TelinkB91.Debug.Printf
import TelinkB91.Debug.Status
import TelinkB91.Debug.IntMessage
import TelinkB91.Sleep.Mask
import TelinkB91.Sleep.StuckKey
import TelinkB91.Uart.Prime
import TelinkB91.Uart.Divider
import TelinkB91.Led.Blink
import TelinkB91.Led.Single
import TelinkB91.Lib.WordMemory
import TelinkB91.Lib.Intervals
import TelinkB91.Rtos.Heap
import TelinkB91.Rtos.FreeList
import TelinkB91.Rtos.Blocks
import TelinkB91.Rtos.HeapRuns
import TelinkB91.Rtos.HeapStats
import TelinkB91.Flash.Protection
import TelinkB91.Usb.CdcSend
import TelinkB91.Serial.WakePin
import TelinkB91.Rtos.TaskList
import TelinkB91.Rtos.Tasks
import TelinkB91.Rtos.Placement
import TelinkB91.Rtos.Notify
import TelinkB91.Rtos.Scheduling
import TelinkB91.Rtos.Delays
import TelinkB91.Rtos.DelayRuns
import TelinkB91.Rtos.Periods
