import XaMain.Yaml.Node
import XaMain.Yaml.Loader
import XaMain.Yaml.Stream
import XaMain.Yaml.Document
import XaMain.Yaml.LoadCorrect
import XaMain.Yaml.Settings
import XaMain.Yaml.Dispatch
import XaMain.Common.Validation
import XaMain.Mariadb.Uri
import XaMain.Mariadb.UriGrammar
import XaMain.Main.Options
import XaMain.Main.Ports
import XaMain.Rpc.Handler
import XaMain.Rpc.Response
import XaMain.Rpc.Replies
import XaMain.Rpc.Status
import XaMain.Lib.Protocol
import XaMain.Mariadb.Client
import XaMain.Mariadb.Helper
import XaMain.Mariadb.QueryHelper
import XaMain.Mariadb.Settles
import XaMain.Main.SettingsLoader
import XaMain.Mariadb.Failures
import XaMain.Common.Async
import XaMain.Yaml.Verdict
import XaMain.Yaml.LoadVerdict
import XaMain.Yaml.LoadStream
import XaMain.Yaml.Load
import XaMain.Yaml.Release
import XaMain.Yaml.Reload
import XaMain.Yaml.Integer
import XaMain.Lib.CInt
import XaMain.Main.AddressPort
import XaMain.Common.NumericHost
import XaMain.Common.PrettyDatetime
import XaMain.Yaml.SharedTable
import XaMain.Main.Cmdline
import XaMain.Lib.LastWins
import XaMain.Main.Meaning
import XaMain.Main.RoundTrip
import XaMain.Main.Program
import XaMain.Rpc.Overrides
import XaMain.Mariadb.Alarms
import XaMain.Common.DatetimePieces
import XaMain.Common.Completion
import XaMain.Main.ServerThread
