import Mathlib

/-!
# Worlds and preflight errors

`mcode-plugin-host/src/component_world.rs` and `error.rs`: the four worlds that
a plugin component can have, and why a component is refused.
-/

namespace MCode.Preflight

inductive ComponentWorld where
  | Web
  | Mcp
  | Usage
  | Provider
  deriving DecidableEq

def ComponentWorld.imports : ComponentWorld → List String
  | .Web => ["mcode:feature-pack/web-host@0.0.1"]
  | .Mcp => ["mcode:feature-pack/mcp-host@0.0.1"]
  | .Usage => ["mcode:feature-pack/usage-host@0.0.1"]
  | .Provider => []

def ComponentWorld.exports : ComponentWorld → List String
  | .Web => ["mcode:feature-pack/web-pack@0.0.1"]
  | .Mcp => ["mcode:feature-pack/mcp-pack@0.0.1"]
  | .Usage => ["mcode:feature-pack/usage-pack@0.0.1"]
  | .Provider => ["mcode:provider-pack/provider-api@0.0.1"]

inductive ImportCategory where
  | Filesystem
  | Network
  | Process
  | Terminal
  | Http
  | Random
  | Clocks
  | Secret
  | Logging
  | UserInterface
  | RawHost
  | Wasi
  | MCodeVersion
  | Extra
  deriving DecidableEq

inductive PreflightError where
  | DisabledFeature
  | UnboundedMemory
  | MemoryLimit
  | MemoryCount
  | MemoryAggregateLimit
  | UnboundedTable
  | TableLimit
  | TableCount
  | TableAggregateLimit
  | Engine
  | DeniedImport (category : ImportCategory)
  | MissingImport
  | ImportShape
  | MissingExport
  | ExportShape
  deriving DecidableEq

end MCode.Preflight
