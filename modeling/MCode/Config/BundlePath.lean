import MCode.Lib.Paths
import MCode.Vault.Model

/-!
# Paths inside a bundle

`BundlePath::parse` of `pack_installation.rs`.  A bundle path is ASCII, so its
bytes are its characters.
-/

namespace MCode.Config

open MCode.Lib.Paths (Above)
open MCode.Vault (ConfigErrorKind authorityError isAsciiAlphanumeric isAsciiLowercase isAsciiDigit
  isSeparator isWindowsDeviceName)

def MAX_BUNDLE_PATH_BYTES : Nat := 512
def MAX_BUNDLE_COMPONENTS : Nat := 128
def MAX_BUNDLE_COMPONENT_BYTES : Nat := 128
def INSTALLATION_FILE_NAME : String := "installation.json"

def isAscii (value : String) : Bool := value.toList.all fun c => c.toNat < 128

def validBundleComponent (component : String) : Bool :=
  (1 ≤ component.utf8ByteSize && component.utf8ByteSize ≤ MAX_BUNDLE_COMPONENT_BYTES)
    && component.toList.head?.any isAsciiAlphanumeric
    && component.toList.getLast?.any isAsciiAlphanumeric
    && component.toList.all (fun c => isAsciiLowercase c || isAsciiDigit c || isSeparator c)
    && !isWindowsDeviceName component.toList

/-- `value.split('/')`. -/
def components (value : String) : List String := (value.toList.splitOn '/').map String.ofList

def isBundlePath (value : String) : Bool :=
  (1 ≤ value.utf8ByteSize && value.utf8ByteSize ≤ MAX_BUNDLE_PATH_BYTES) && isAscii value
    && !(components value).isEmpty
    && (components value).length ≤ MAX_BUNDLE_COMPONENTS
    && !((components value).head? == some "data")
    && !(components value).any (fun component =>
      !validBundleComponent component || component == INSTALLATION_FILE_NAME)

structure BundlePath where
  value : String
  valid : isBundlePath value = true

def BundlePath.parse (value : String) : Except ConfigErrorKind BundlePath :=
  if h : isBundlePath value = true then .ok ⟨value, h⟩ else .error authorityError

/-- The components of a path are not empty. -/
theorem BundlePath.component_ne_nil (path : BundlePath) {component : List Char}
    (h : component ∈ path.value.toList.splitOn '/') : component ≠ [] := by
  intro hnil
  have hvalid := path.valid
  unfold isBundlePath at hvalid
  simp only [Bool.and_eq_true, Bool.not_eq_true', List.any_eq_false] at hvalid
  have hmem : String.ofList component ∈ components path.value := List.mem_map_of_mem h
  have hcomponent := hvalid.2 _ hmem
  rw [hnil] at hcomponent
  exact hcomponent (by decide)

/-! ## Paths above a path -/

/-- A path is a proper prefix of another, component by component. -/
def ProperPrefix (path other : String) : Prop := Above '/' path.toList other.toList

/-- The components of a path are the first ones of another. -/
def Begins (path other : String) : Prop :=
  path.toList.splitOn '/' <+: other.toList.splitOn '/'

theorem begins_iff {path other : String} :
    Begins path other ↔ path = other ∨ ProperPrefix path other := by
  unfold Begins ProperPrefix
  rw [MCode.Lib.Paths.prefix_iff, String.toList_inj]

theorem ProperPrefix.trans {path other last : String} (h : ProperPrefix path other)
    (hlast : ProperPrefix other last) : ProperPrefix path last := Above.trans h hlast

theorem ProperPrefix.irrefl (path : String) : ¬ProperPrefix path path := Above.irrefl _

end MCode.Config
