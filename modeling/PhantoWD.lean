import PhantoWD.NasRecovery
import PhantoWD.LauncherArguments
import PhantoWD.PolicyLeases
import PhantoWD.McuFraming
import PhantoWD.IdentityRpc
import PhantoWD.GptAgreement
import PhantoWD.NasPolicyEdit
import PhantoWD.AuthJson
import PhantoWD.SmbRevocation
import PhantoWD.ReleaseGate
import PhantoWD.FileServicePlan
import PhantoWD.SambaSections
import PhantoWD.ExportsTable
import PhantoWD.ProbeSnapshot
import PhantoWD.MdArrays
import PhantoWD.MdInventory
import PhantoWD.GptIdentities
import PhantoWD.RegistryFreshness
import PhantoWD.IscsiOrder
import PhantoWD.ServiceAccountStore
import PhantoWD.SessionStore
import PhantoWD.VolumeSets
import PhantoWD.DiagnosticRing
