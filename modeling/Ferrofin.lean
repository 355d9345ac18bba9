import Ferrofin.Auth.Header
import Ferrofin.Auth.Revocation
import Ferrofin.Changes.ExactlyOnce
import Ferrofin.Chromaprint.Selected
import Ferrofin.Cryptography.PasswordHash
import Ferrofin.Directories.Fresh
import Ferrofin.Dlna.Bitrates
import Ferrofin.Dlna.DirectPlay
import Ferrofin.Dvr.Cancel
import Ferrofin.Dvr.Captures
import Ferrofin.Dvr.Targets
import Ferrofin.HdHomerun.Session
import Ferrofin.Hls.PlaylistGenerator
import Ferrofin.Hls.ReadAhead
import Ferrofin.Hls.Retention
import Ferrofin.Hls.SingleWriter
import Ferrofin.IntroSkipper.CreditScenes
import Ferrofin.IntroSkipper.UserSegments
import Ferrofin.Libraries.Coherence
import Ferrofin.Libraries.VirtualPaths
import Ferrofin.LiveTv.M3u
import Ferrofin.LiveTv.OpenStreams
import Ferrofin.MediaStreams.Rows
import Ferrofin.MergeVersions.Converges
import Ferrofin.MergeVersions.Manual
import Ferrofin.Metadata.Contract
import Ferrofin.Monitor.NoLoss
import Ferrofin.Monitor.Suppressed
import Ferrofin.Mounts.Decoded
import Ferrofin.Naming.NumericOrdering
import Ferrofin.Net.HostText
import Ferrofin.Net.RemoteAccess
import Ferrofin.Net.Unforgeable
import Ferrofin.Playlists.RoundTrip
import Ferrofin.Policies.ReadBack
import Ferrofin.Provider.Safety
import Ferrofin.QuickConnect.Capacity
import Ferrofin.QuickConnect.Pairing
import Ferrofin.Refresh.Again
import Ferrofin.Scan.Coalesce
import Ferrofin.Scan.Discipline
import Ferrofin.Scan.Fanout
import Ferrofin.Scan.Progress
import Ferrofin.Segments.Failed
import Ferrofin.Session.LiveStreams
import Ferrofin.Subtitles.SrtRoundTrip
import Ferrofin.Subtitles.VttFramed
import Ferrofin.SyncPlay.Access
import Ferrofin.SyncPlay.GroupResume
import Ferrofin.SyncPlay.PlayingItem
import Ferrofin.SyncPlay.Positions
import Ferrofin.SyncPlay.QueueUpdates
import Ferrofin.Tasks.Calendar
import Ferrofin.Tasks.Requests
import Ferrofin.Tasks.Runs
import Ferrofin.Transcode.Reaper
import Ferrofin.Trickplay.Playlist
import Ferrofin.UserData.ChangeNotifier
import Ferrofin.UserData.Provenance
import Ferrofin.UserData.Resume
import Ferrofin.UserData.Serial
import Ferrofin.Users.Floor
import Ferrofin.Users.Lockout
import Ferrofin.Util.CleanValue
import Ferrofin.Util.KeyedLocks
import Ferrofin.Util.StableSort
import Ferrofin.Versions.Groups
import Ferrofin.Visibility.Termination
