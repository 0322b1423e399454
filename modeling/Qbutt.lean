import Qbutt.Download.Equiv.Cancellation
import Qbutt.Download.Equiv.Exclusivity
import Qbutt.Download.Equiv.Recovery
import Qbutt.Settings.Equiv.Storage
import Qbutt.Translation.Equiv.Library
import Qbutt.Translation.Equiv.Text
import Qbutt.Library.Equiv.Store
import Qbutt.Paths.Equiv.Native
import Qbutt.Paths.Equiv.Atomic
import Qbutt.Sync.Equiv.Client
import Qbutt.Http.Equiv.Media
import Qbutt.Server.Equiv.Framing
import Qbutt.Resume.Equiv.Database
import Qbutt.Browser.Equiv.Actor
import Qbutt.Completion.Equiv.Evaluation
import Qbutt.Staging.Equiv.Storage
import Qbutt.Repair.Equiv.Analysis
import Qbutt.Search.Equiv.Session
import Qbutt.Streaming.Equiv.System
import Qbutt.Association.Equiv.Ranking
import Qbutt.Categories.Equiv.Tree
import Qbutt.Dash.Equiv.Template
import Qbutt.Download.Equiv.Usable
import Qbutt.Hls.Equiv.Playlist
import Qbutt.Library.Equiv.Sources
import Qbutt.Net.Equiv.Memory
import Qbutt.Streaming.Equiv.Answer
import Qbutt.Text.Equiv.Anchors
import Qbutt.Text.Equiv.Ruby
import Qbutt.Torrent.Equiv.InfoHash
import Qbutt.Filter.Equiv.Rules
import Qbutt.Paths.Equiv.Output
import Qbutt.Server.Equiv.Multipart
import Qbutt.Sync.Equiv.Peers
import Qbutt.Profile.Equiv.Targets
import Qbutt.Utils.Compare
import Qbutt.Resume.Equiv.Queue
import Qbutt.Update.Equiv.Releases
import Qbutt.Http.Equiv.Ranges
import Qbutt.Rss.Equiv.Smart
import Qbutt.Rss.Equiv.Episodes
import Qbutt.Net.Equiv.GeoIP
import Qbutt.Books.Pages
import Qbutt.Torrent.Equiv.Progress
import Qbutt.Reader.PageModel
import Qbutt.Reader.Documents
import Qbutt.Torrent.UserPath
import Qbutt.Staging.Equiv.Agreement
import Qbutt.Content.PublicKey
import Qbutt.Books.Epub
import Qbutt.Books.Fb2
import Qbutt.Content.Sharing
