import PalworldManager.Audit.Idempotence
import PalworldManager.Audit.Pages
import PalworldManager.Auth.Validity
import PalworldManager.Backups.ArchivePath
import PalworldManager.Backups.OwnBackup
import PalworldManager.Backups.Scheduler
import PalworldManager.Drive.Upload
import PalworldManager.Http.BodyLimit
import PalworldManager.Jobs.Names
import PalworldManager.Lifecycle.Service
import PalworldManager.Notifications.Delivery
import PalworldManager.PalworldSettings.Numbers
import PalworldManager.PalworldSettings.Writers
import PalworldManager.Restores.Recovery
import PalworldManager.Restores.SameFile
import PalworldManager.Restores.Secrets
import PalworldManager.Settings.Updates
import PalworldManager.System.ActiveJob
import PalworldManager.System.Cancellation
import PalworldManager.System.Completion
import PalworldManager.System.HostPower
import PalworldManager.System.Lease
import PalworldManager.System.LeaseRow
import PalworldManager.System.Sealing
import PalworldManager.System.LateCancel
import PalworldManager.System.RestoreOrder
import PalworldManager.Updates.KeyValues
