import DeviceDrivers.EventRun
import DeviceDrivers.Halting
import DeviceDrivers.ByteMemory
import DeviceDrivers.Interaction
import DeviceDrivers.Ledger
import DeviceDrivers.CString
import DeviceDrivers.ShiftRegister
import DeviceDrivers.LineCode
import DeviceDrivers.DofDisk
import DeviceDrivers.DofDiskAccess
import DeviceDrivers.DofDiskFlat
import DeviceDrivers.DofDiskImage
import DeviceDrivers.DofDiskPartitions
import DeviceDrivers.DofDiskDisclosure
import DeviceDrivers.DofDiskInit
import DeviceDrivers.ServoFirmware
import DeviceDrivers.ServoClient
import DeviceDrivers.ServoIoctl
import DeviceDrivers.ServoSharing
import DeviceDrivers.ServoAgreement
import DeviceDrivers.ServoHotplug
import DeviceDrivers.ServoNumeral
import DeviceDrivers.UsbString
import DeviceDrivers.UsbOpen
import DeviceDrivers.UsbMatch
import DeviceDrivers.ServoTool
import DeviceDrivers.UsbdrvCrc
import DeviceDrivers.UsbdrvTransmit
import DeviceDrivers.UsbdrvReceive
import DeviceDrivers.UsbdrvLoopback
import DeviceDrivers.UsbdrvDevice
import DeviceDrivers.UsbdrvMessage
import DeviceDrivers.UsbdrvDelivery
import DeviceDrivers.UsbdrvLine
import DeviceDrivers.UsbdrvControl
import DeviceDrivers.UsbdrvTransfer
import DeviceDrivers.UsbdrvWrite
import DeviceDrivers.UsbdrvSession
import DeviceDrivers.UsbEnumeration
import DeviceDrivers.ServoWire
import DeviceDrivers.AdxlDriver
import DeviceDrivers.AdxlNumbers
import DeviceDrivers.AdxlInit
import DeviceDrivers.AdxlRead
import DeviceDrivers.AdxlClient
import DeviceDrivers.AdxlSession
import DeviceDrivers.AdxlReadings
