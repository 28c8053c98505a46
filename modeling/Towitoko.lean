import Towitoko.Interaction.Prog
import Towitoko.Interaction.Ensures
import Towitoko.Interaction.Assuming
import Towitoko.Interaction.History
import Towitoko.Interaction.Steps
import Towitoko.Interaction.Stateful
import Towitoko.Interaction.Reaches
import Towitoko.Interaction.Secures
import Towitoko.Interaction.Uses
import Towitoko.Interaction.Silent
import Towitoko.Interaction.Refines
import Towitoko.Interaction.Matches
import Towitoko.Linked.Chain
import Towitoko.Framing.Frames
import Towitoko.Interaction.Replay
import Towitoko.Interaction.Returns
import Towitoko.Interaction.Ghost
import Towitoko.Interaction.Marks
import Towitoko.Interaction.Gives
import Towitoko.Interaction.Interp
import Towitoko.Interaction.Implements
import Towitoko.Interaction.Along
import Towitoko.Interaction.Layered
import Towitoko.Interaction.Emits
import Towitoko.Interaction.Ends
import Towitoko.Interaction.Passes
import Towitoko.Memory.Store
import Towitoko.Memory.Transfers
import Towitoko.Iso7816.T0
import Towitoko.Iso7816.T1
import Towitoko.Iso7816.T1Card
import Towitoko.Iso7816.T0Card
import Towitoko.Iso7816.Atr
import Towitoko.Iso7816.Pps
import Towitoko.Iso7816.Apdu
import Towitoko.Iso7816.Ber
import Towitoko.Driver.Defines
import Towitoko.Driver.Apdu
import Towitoko.Driver.AtrSync
import Towitoko.Driver.Atr
import Towitoko.Driver.Ifd
import Towitoko.Driver.Port
import Towitoko.Driver.IccAsync
import Towitoko.Driver.Stream
import Towitoko.Driver.ProtocolT0
import Towitoko.Driver.Tpdu
import Towitoko.Driver.T1Block
import Towitoko.Driver.ProtocolT1
import Towitoko.Driver.Pps
import Towitoko.Driver.AsyncRun
import Towitoko.Driver.SyncRun
import Towitoko.Driver.IccSync
import Towitoko.Driver.TlvObject
import Towitoko.Driver.ProtocolSync
import Towitoko.Driver.MemoryCard
import Towitoko.Driver.CommandData
import Towitoko.Driver.InfReads
import Towitoko.Driver.IoSerial
import Towitoko.Driver.SerialPort
import Towitoko.Driver.SerialLine
import Towitoko.Driver.IfdTowitoko
import Towitoko.Driver.IfdCommands
import Towitoko.Driver.IfdLayer
import Towitoko.Driver.SerialDevice
import Towitoko.Driver.Reader
import Towitoko.CtApi.CtSlot
import Towitoko.CtApi.RawSlot
import Towitoko.CtApi.CardTerminal
import Towitoko.CtApi.CtList
import Towitoko.CtApi.CtApi
import Towitoko.CtApi.CtListNodes
import Towitoko.CtApi.Threads
import Towitoko.IfdHandler.IfdHandler
import Towitoko.Driver.Theorems.IccAsync
import Towitoko.Driver.Theorems.AtrInit
import Towitoko.Driver.Theorems.AtrAccessors
import Towitoko.Driver.Theorems.AtrCheckByte
import Towitoko.Driver.Theorems.AtrContents
import Towitoko.Driver.Theorems.T1Block
import Towitoko.Driver.Theorems.ProtocolT0
import Towitoko.Driver.Theorems.Pps
import Towitoko.Driver.Theorems.PpsRates
import Towitoko.Driver.Theorems.ProtocolT1
import Towitoko.Driver.Theorems.T1Reassembly
import Towitoko.Driver.CardPeer
import Towitoko.Driver.Theorems.CardPeer
import Towitoko.Driver.Theorems.T1Dialogue
import Towitoko.Driver.Theorems.T0Exchange
import Towitoko.Driver.Theorems.T0Dialogue
import Towitoko.Driver.Theorems.EnvelopeDialogue
import Towitoko.Driver.Theorems.T1Chaining
import Towitoko.Driver.Theorems.T1WaitingTimes
import Towitoko.Driver.Theorems.T0Response
import Towitoko.Driver.Theorems.T0Consumption
import Towitoko.Driver.Theorems.T0Exits
import Towitoko.Driver.Theorems.ProcedureBytes
import Towitoko.Driver.Theorems.LineSettings
import Towitoko.Driver.Theorems.LineParity
import Towitoko.Driver.Theorems.LineTransfers
import Towitoko.Driver.Theorems.Tpdu
import Towitoko.Driver.Theorems.Envelopes
import Towitoko.Driver.Theorems.GetResponses
import Towitoko.Driver.Theorems.ExtendedRead
import Towitoko.Driver.Theorems.T1Response
import Towitoko.Driver.Theorems.InfReads
import Towitoko.Driver.Theorems.IccSync
import Towitoko.Driver.Theorems.IccSyncAccess
import Towitoko.Driver.Theorems.IccSyncWrite
import Towitoko.Driver.Theorems.IccSyncProbe
import Towitoko.Driver.Theorems.WriteVerification
import Towitoko.Driver.Theorems.PowerWatch
import Towitoko.Driver.Theorems.AddressCommands
import Towitoko.Driver.Theorems.Apdu
import Towitoko.Driver.Theorems.ResponseData
import Towitoko.Driver.Theorems.TlvObject
import Towitoko.Driver.Theorems.ProtocolSyncAccess
import Towitoko.Driver.Theorems.ProtocolSync
import Towitoko.Driver.Theorems.PinAttempts
import Towitoko.Driver.Theorems.TlvBounds
import Towitoko.Driver.Theorems.TlvSession
import Towitoko.Driver.Theorems.TlvTraversal
import Towitoko.Driver.Theorems.TlvChildren
import Towitoko.Driver.Theorems.TlvContents
import Towitoko.Driver.Theorems.TlvEncoding
import Towitoko.Driver.Theorems.DataSections
import Towitoko.Driver.Theorems.CommandData
import Towitoko.Driver.Theorems.AidSearch
import Towitoko.Driver.Theorems.AidPath
import Towitoko.Driver.Theorems.IoSerial
import Towitoko.Driver.Theorems.PrepareCommand
import Towitoko.Driver.Theorems.SerialCache
import Towitoko.Driver.Theorems.SerialLine
import Towitoko.Driver.Theorems.BaudRates
import Towitoko.Driver.Theorems.Checksum
import Towitoko.Driver.Theorems.Transmit
import Towitoko.Driver.Theorems.BufferTransfers
import Towitoko.Driver.Theorems.ResetAsync
import Towitoko.Driver.Theorems.Reader
import Towitoko.Driver.Theorems.I2cReader
import Towitoko.Driver.Theorems.I2cOverSerial
import Towitoko.Driver.Theorems.I2cSession
import Towitoko.Driver.LineScript
import Towitoko.Driver.Theorems.LineScripts
import Towitoko.Driver.Theorems.LineTraffic
import Towitoko.Driver.Theorems.PinOnLine
import Towitoko.Driver.Theorems.DriverEnds
import Towitoko.Driver.Theorems.SyncEnds
import Towitoko.CtApi.Theorems.CtSlot
import Towitoko.CtApi.Theorems.RawSlot
import Towitoko.CtApi.Theorems.Removal
import Towitoko.CtApi.Theorems.Slots
import Towitoko.CtApi.Theorems.Parameters
import Towitoko.CtApi.Theorems.Activation
import Towitoko.CtApi.Theorems.SlotAccess
import Towitoko.CtApi.Theorems.SlotLog
import Towitoko.CtApi.Theorems.Resynchronisation
import Towitoko.CtApi.Theorems.Registry
import Towitoko.CtApi.Theorems.CtApi
import Towitoko.CtApi.Theorems.Addresses
import Towitoko.CtApi.Theorems.CardReports
import Towitoko.CtApi.Theorems.CardSession
import Towitoko.CtApi.Theorems.Threads
import Towitoko.CtApi.Theorems.Init
import Towitoko.CtApi.Theorems.Close
import Towitoko.IfdHandler.Theorems.Channels
import Towitoko.IfdHandler.Theorems.Negotiation
import Towitoko.IfdHandler.Theorems.PowerICC
import Towitoko.IfdHandler.Theorems.Entries
import Towitoko.IfdHandler.Theorems.Isolation
