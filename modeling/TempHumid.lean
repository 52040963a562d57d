import TempHumid.Library.Machine
import TempHumid.Library.Simulation
import TempHumid.Library.Crc
import TempHumid.Library.AvrCore
import TempHumid.Library.Records
import TempHumid.Library.Packets
import TempHumid.Library.LineCode
import TempHumid.Avr.LineReceiver
import TempHumid.Avr.LinePackets
import TempHumid.Avr.LineTransmitter
import TempHumid.Sensor.Frame
import TempHumid.Th2.Firmware
import TempHumid.Th2.FrameIntegrity
import TempHumid.Th2.Decode
import TempHumid.Th2.Analog
import TempHumid.Th2.ReadSchedule
import TempHumid.Th2.Bus
import TempHumid.Th2.Cycle
import TempHumid.Th2.Calibration
import TempHumid.Agreement
import TempHumid.Th2.Control
import TempHumid.Th2.Device
import TempHumid.Th2.InData
import TempHumid.Avr.Usb
import TempHumid.Avr.Bus
import TempHumid.Avr.Schedule
import TempHumid.Avr.Outputs
import TempHumid.Avr.Pair
import TempHumid.Avr.Report
import TempHumid.Avr.Crc
import TempHumid.Th2.ReplyLength
import TempHumid.Th2.Standard
import TempHumid.Th2.PayloadBounds
import TempHumid.Th2.Transfer
import TempHumid.Th2.DeviceState
import TempHumid.Th2.Descriptors
import TempHumid.Th2.Configuration
import TempHumid.Th2.EndpointJobs
import TempHumid.Host.Library
import TempHumid.Host.Selection
import TempHumid.Host.Devices
import TempHumid.Host.Accounting
import TempHumid.Host.Context
import TempHumid.Host.Form
import TempHumid.Host.Reconnect
import TempHumid.Th2.EndpointRuns
import TempHumid.Th2.ReportPipes
