import LogSubmitter.Json
import LogSubmitter.Json.Text
import LogSubmitter.Json.RoundTrip
import LogSubmitter.Json.Ascii
import LogSubmitter.Json.Float
import LogSubmitter.Lib.Framed
import LogSubmitter.Sentry
import LogSubmitter.Lib.Runs
import LogSubmitter.Lib.Cursor
import LogSubmitter.Lib.Asyncio
import LogSubmitter.Lib.Await
import LogSubmitter.Lib.Path
import LogSubmitter.Sysinfo
import LogSubmitter.Sysinfo.Cache
import LogSubmitter.Sysinfo.Accumulate
import LogSubmitter.Sysinfo.Crash
import LogSubmitter.Lockfile
import LogSubmitter.Lockfile.Mutex
import LogSubmitter.Runner
import LogSubmitter.Runner.Phases
import LogSubmitter.Runner.Awaits
import LogSubmitter.Sysreport
import LogSubmitter.Journal.Read
import LogSubmitter.Journal.Helper
import LogSubmitter.Journal.Collect
import LogSubmitter.Journal.Incremental
import LogSubmitter.Journal.Cursors
import LogSubmitter.Journal.Awaits
import LogSubmitter.Journal.Errors
import LogSubmitter.Data
import LogSubmitter.Data.Stores
import LogSubmitter.Str
import LogSubmitter.Trace
import LogSubmitter.Trace.Awaits
import LogSubmitter.Hooks
import LogSubmitter.Hooks.DevicePath
import LogSubmitter.Config
import LogSubmitter.Config.Upgrade
import LogSubmitter.Helpers
import LogSubmitter.Helpers.Collect
import LogSubmitter.Helpers.NewLogs
import LogSubmitter.Helpers.Staging
import LogSubmitter.Lib.Regex
import LogSubmitter.Kdump
import LogSubmitter.Submit
import LogSubmitter.Submit.Logs
import LogSubmitter.Submit.Archives
import LogSubmitter.Kdump.Submit
import LogSubmitter.Submit.Contents
import LogSubmitter.Sentry.Send
import LogSubmitter.Daemon
import LogSubmitter.Daemon.Turns
import LogSubmitter.Daemon.Lock
import LogSubmitter.Daemon.Release
import LogSubmitter.Daemon.Stop
import LogSubmitter.Daemon.Promise
import LogSubmitter.Daemon.Outside
import LogSubmitter.Daemon.Inside
import LogSubmitter.Daemon.Wait
import LogSubmitter.Daemon.Periodic
import LogSubmitter.Daemon.Schedule
import LogSubmitter.Daemon.OnTime
import LogSubmitter.Lib.Segments
import LogSubmitter.Lib.Replace
import LogSubmitter.Kdump.Traces
import LogSubmitter.Kdump.Blocks
import LogSubmitter.Kdump.Later
import LogSubmitter.Kdump.Prune
import LogSubmitter.Trace.Capture
import LogSubmitter.Minidump
import LogSubmitter.Helpers.Extract
import LogSubmitter.Helpers.Earlyoom
import LogSubmitter.Appid
import LogSubmitter.Appid.Errors
import LogSubmitter.Appid.Chain
import LogSubmitter.Lib.Loop
import LogSubmitter.Lib.Words
import LogSubmitter.Trace.Line
import LogSubmitter.Journal.Names
import LogSubmitter.Dbus.MatchRule
import LogSubmitter.Client
import LogSubmitter.Logging
import LogSubmitter.Lib.Struct
import LogSubmitter.Sysinfo.Edid
import LogSubmitter.Lib.Interpolation
import LogSubmitter.Config.Interpolated
import LogSubmitter.Dbus.Properties
import LogSubmitter.Client.Objects
import LogSubmitter.Case.Snake
import LogSubmitter.Lib.Greedy
import LogSubmitter.Appid.Stat
import LogSubmitter.Appid.Forged
import LogSubmitter.Lib.Script
import LogSubmitter.Hooks.Coredump
import LogSubmitter.Hooks.Tee
import LogSubmitter.Config.Stored
import LogSubmitter.Minidump.Packages
import LogSubmitter.Minidump.Submit
import LogSubmitter.Minidump.Collected
import LogSubmitter.Hooks.Gpu
import LogSubmitter.Hooks.Devcoredump
import LogSubmitter.Trace.Logged
import LogSubmitter.Journal.Sent
import LogSubmitter.Client.Settings
import LogSubmitter.Config.Kept
import LogSubmitter.Client.Listing
import LogSubmitter.Kdump.Sent
import LogSubmitter.Privileges
