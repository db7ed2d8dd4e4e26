import KeyWallet.StepSystem
import KeyWallet.RtcClock
import KeyWallet.Calendar
import KeyWallet.RtcExact
import KeyWallet.UiState
import KeyWallet.PinSubmit
import KeyWallet.WalletUi
import KeyWallet.ButtonPoll
import KeyWallet.UiCore
import KeyWallet.UiRefines
import KeyWallet.UiRuns
import KeyWallet.LocalApproval
import KeyWallet.PresenceWait
import KeyWallet.PinCreation
import KeyWallet.PinLockout
import KeyWallet.PinApproves
import KeyWallet.CrashProgram
import KeyWallet.KeyDevice
import KeyWallet.ClientPin
import KeyWallet.KeyFormats
import KeyWallet.PinStorage
import KeyWallet.PinChange
import KeyWallet.PinChangeWindow
import KeyWallet.PinRetry
import KeyWallet.PinRetryRuns
import KeyWallet.KeyVendor
import KeyWallet.KeySurvival
import KeyWallet.KeySurvivalRuns
import KeyWallet.ObjectContainer
import KeyWallet.ContainerScheme
import KeyWallet.ContainerStaging
import KeyWallet.ContainerUpdate
import KeyWallet.ContainerCrash
import KeyWallet.ContainerSweep
import KeyWallet.ContainerRemoval
import KeyWallet.ResidentContainer
import KeyWallet.ResidentAtomic
import KeyWallet.ResidentIsolation
import KeyWallet.OtpContainer
import KeyWallet.OtpBank
import KeyWallet.OtpErasure
import KeyWallet.WriteCache
import KeyWallet.ObjectTxn
import KeyWallet.ObjectTxnCrash
import KeyWallet.RecordIds
import KeyWallet.OathAccess
import KeyWallet.OathRuns
import KeyWallet.VaultContainer
import KeyWallet.VaultAtomic
import KeyWallet.LargeBlobs
import KeyWallet.ByteCodec
import KeyWallet.ManifestCodec
import KeyWallet.FlashCache
import KeyWallet.OpenAddressing
import KeyWallet.FileIndex
import KeyWallet.HandleTable
import KeyWallet.ObjectHandles
import KeyWallet.ResidentSlots
import KeyWallet.CredMgmt
import KeyWallet.CredMgmtAuth
import KeyWallet.CredEnumeration
import KeyWallet.ContainerView
import KeyWallet.CredStore
import KeyWallet.CredAccounts
import KeyWallet.DeviceReset
import KeyWallet.MinPin
import KeyWallet.ByteBuffer
import KeyWallet.HidFrames
import KeyWallet.HidReceive
import KeyWallet.HidTransmit
import KeyWallet.HidBuffers
import KeyWallet.HidInside
import KeyWallet.PresenceRequests
import KeyWallet.PresenceLabel
import KeyWallet.CancelScope
import KeyWallet.SignCounter
import KeyWallet.ExchangeSort
import KeyWallet.Assertion
import KeyWallet.AssertionWalk
import KeyWallet.CredProtect
import KeyWallet.CredPayload
import KeyWallet.CredUpdate
import KeyWallet.CredEnvelope
import KeyWallet.PinBuffers
import KeyWallet.GetResponse
import KeyWallet.OathPinRetry
import KeyWallet.OtpSlots
import KeyWallet.OtpUnique
import KeyWallet.OtpGuard
import KeyWallet.VaultEnroll
import KeyWallet.Tlv
import KeyWallet.FidoReset
import KeyWallet.ResetErasure
import KeyWallet.MetaMap
import KeyWallet.OathCredential
import KeyWallet.OathStore
import KeyWallet.OathMap
import KeyWallet.OathHotp
import KeyWallet.FlashContents
import KeyWallet.FlashResidue
import KeyWallet.Phy
import KeyWallet.PinTyping
import KeyWallet.OtpHotp
import KeyWallet.KeyAgreement
import KeyWallet.AssertionIds
import KeyWallet.AssertionOwners
import KeyWallet.AssertionComplete
import KeyWallet.OathWalk
import KeyWallet.U2f
import KeyWallet.ExcludeList
import KeyWallet.ApduChain
import KeyWallet.TlvCursor
import KeyWallet.VaultHpke
import KeyWallet.FlashScan
import KeyWallet.MakeCredential
import KeyWallet.UserPresence
import KeyWallet.MakeAtomic
import KeyWallet.WorkerQueues
import KeyWallet.VaultBlob
import KeyWallet.RingBuffer
import KeyWallet.Hwrng
import KeyWallet.RandomPool
