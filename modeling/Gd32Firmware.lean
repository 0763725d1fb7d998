import Gd32Firmware.Tuya.RingBuf
import Gd32Firmware.Tuya.Queue
import Gd32Firmware.Tuya.Smartpointer
import Gd32Firmware.Tuya.Hashmap
import Gd32Firmware.Wifi.Eloop
import Gd32Firmware.Tuya.Heaps
import Gd32Firmware.Ota.Board
import Gd32Firmware.Wifi.ConnectResult
import Gd32Firmware.App.CmdShell
import Gd32Firmware.App.AtCmd
import Gd32Firmware.App.OtaDemo
import Gd32Firmware.Mm.Mqtt
import Gd32Firmware.Tkl.Sleep
import Gd32Firmware.Ble.DfuCommit
import Gd32Firmware.Tkl.Exti
import Gd32Firmware.Tkl.Spi
import Gd32Firmware.Ble.HciSend
import Gd32Firmware.Plf.NandReboot
import Gd32Firmware.Plf.FlashMapping
import Gd32Firmware.Nvds.Checksums
import Gd32Firmware.Nvds.CurrentPage
import Gd32Firmware.Nvds.Mutex
import Gd32Firmware.Tuya.Tools
import Gd32Firmware.Plf.RawFlashFast
import Gd32Firmware.Tuya.HeapDebug
import Gd32Firmware.Wifi.JoinedAp
import Gd32Firmware.Tuya.License
import Gd32Firmware.Nvds.SequenceNumbers
import Gd32Firmware.App.ParseIp4
import Gd32Firmware.Mm.SpiTimes
import Gd32Firmware.Mm.SpiReceive
import Gd32Firmware.App.FileSend
import Gd32Firmware.Ble.GattValues
import Gd32Firmware.Ble.GattTable
import Gd32Firmware.Tkl.I2cRestart
import Gd32Firmware.Plf.SysTime
import Gd32Firmware.Tkl.Pwm
import Gd32Firmware.Tkl.Timer
import Gd32Firmware.Tkl.WakeupDelay
import Gd32Firmware.Tkl.Adc
import Gd32Firmware.Ble.CourierReceive
import Gd32Firmware.Ble.CourierSend
import Gd32Firmware.Plf.QspiFlash
import Gd32Firmware.Util.SlistRuns
