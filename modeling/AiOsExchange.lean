import AiOsExchange.Lib.Run
import AiOsExchange.Lib.Comp
import AiOsExchange.Lib.Coherence
import AiOsExchange.Lib.Fnv
import AiOsExchange.Watcher.Sync
import AiOsExchange.Autarky.Panics
import AiOsExchange.Autarky.Gas
import AiOsExchange.Autarky.Receipts
import AiOsExchange.Fat32.Append
import AiOsExchange.Kernel.Stale
import AiOsExchange.Kernel.Exec
import AiOsExchange.Shell.Trades
import AiOsExchange.Virtio.Buffers
import AiOsExchange.Watcher.Order
import AiOsExchange.Kernel.Confined
import AiOsExchange.Kernel.Arena
import AiOsExchange.Shell.Typed
import AiOsExchange.Fat32.Unmounted
import AiOsExchange.Fat32.Intact
import AiOsExchange.Autarky.Print
import AiOsExchange.Autarky.Scope
import AiOsExchange.Kernel.Fifo
import AiOsExchange.Shell.Decode
import AiOsExchange.Fat32.Unique
import AiOsExchange.Kernel.Display
import AiOsExchange.Autarky.Abi
import AiOsExchange.Daemon.Whitelist
import AiOsExchange.Virtio.Volume
import AiOsExchange.Autarky.Rebind
import AiOsExchange.Autarky.Exact
import AiOsExchange.Fat32.Lookup
import AiOsExchange.Kernel.Held
import AiOsExchange.Shell.Framing
import AiOsExchange.Fat32.Frame
import AiOsExchange.Fat32.Reading
import AiOsExchange.Fat32.Atomic
import AiOsExchange.Fat32.Stored
import AiOsExchange.Kernel.Ledger
import AiOsExchange.Virtio.Lockstep
import AiOsExchange.Autarky.Malformed
import AiOsExchange.Autarky.Canonical
import AiOsExchange.Autarky.Wall
import AiOsExchange.Autarky.Progress
import AiOsExchange.Autarky.Names
import AiOsExchange.Watcher.Decoded
import AiOsExchange.Watcher.History
import AiOsExchange.Fat32.Mount
import AiOsExchange.Virtio.Flush
import AiOsExchange.Fat32.Listed
import AiOsExchange.Shell.Echo
import AiOsExchange.Kernel.Drain
import AiOsExchange.Tools.Bundle
import AiOsExchange.Lib.Spans
import AiOsExchange.Kernel.Blocks
import AiOsExchange.Lib.Finish
import AiOsExchange.Lib.Stream
import AiOsExchange.Autarky.BigStep
import AiOsExchange.Autarky.Typing
import AiOsExchange.Autarky.Total
import AiOsExchange.Autarky.Polls
import AiOsExchange.Lib.First
import AiOsExchange.Lib.Frame
import AiOsExchange.Lib.Refine
import AiOsExchange.Fat32.Store
import AiOsExchange.Fat32.Places
import AiOsExchange.Fat32.Refines
import AiOsExchange.Fat32.Journal
import AiOsExchange.Watcher.Trail
import AiOsExchange.Kernel.Service
import AiOsExchange.Kernel.Serves
import AiOsExchange.Kernel.Audit
import AiOsExchange.Autarky.Utf8
import AiOsExchange.Shell.Dialogue
import AiOsExchange.Shell.Script
import AiOsExchange.Shell.Transcript
import AiOsExchange.Daemon.Director
import AiOsExchange.Kernel.Panic
import AiOsExchange.Kernel.Process
import AiOsExchange.Tools.Cartridge
import AiOsExchange.Daemon.Recorder
