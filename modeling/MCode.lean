import MCode.Provider.Delivery
import MCode.Agent.Pairing
import MCode.Agent.EventLog
import MCode.Agent.Queues
import MCode.Agent.Abort
import MCode.Routes.Usage
import MCode.Validation.Canonical
import MCode.Validation.Backpressure
import MCode.Validation.Frames
import MCode.Validation.Delivered
import MCode.Generations.Admission
import MCode.Packs.Protocol
import MCode.Vault.Revocation
import MCode.Adapter.Soundness
import MCode.Adapter.Matching
import MCode.Config.Staging
import MCode.Adapter.HeaderMatch
import MCode.Adapter.CatalogPages
import MCode.Adapter.Charge
import MCode.Tools.Target
import MCode.Tools.Binary
import MCode.Tui.AbnormalExit
import MCode.Files.Spelling
import MCode.Files.LineParts
import MCode.Files.Argument
import MCode.Generations.Drained
import MCode.Agent.HeldOpen
import MCode.Edit.Survivors
import MCode.Tui.ScrollRange
import MCode.Tui.Prompts
import MCode.Render.Sequences
import MCode.Tui.Materialize
import MCode.Tui.Redraw
import MCode.Exec.PowerShell
import MCode.Exec.Output
import MCode.Preflight.Renaming
import MCode.Preflight.Scanner
import MCode.Runtime.Limits
import MCode.Runtime.Disposal
import MCode.Edit.Simultaneous
import MCode.Validation.NumberValue
import MCode.Adapter.MistralSizes
import MCode.Edit.Ranking
import MCode.Exec.Ownership
