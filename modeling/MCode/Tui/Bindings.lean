import MCode.Tui.Actions

/-!
# Key bindings and the drawn prompt

The registry of `actions.rs`, the key labels of `hints.rs` and the lines that
`render.rs` draws for a prompt.

Bindings are asked from the latest to the first, exact keys before ordinary
text, and each only where its predicate accepts the state.  The drawn lines have
their semantic token; the colors behind the tokens are left out, and so are the
debug names of media and modifier keys, which stand for the keys themselves.
-/

namespace MCode.Tui.App

open MCode.Render MCode.Tools

/-! ## Keys -/

inductive KeyCode where
  | Backspace
  | Enter
  | Left
  | Right
  | Up
  | Down
  | Home
  | End
  | PageUp
  | PageDown
  | Tab
  | BackTab
  | Delete
  | Insert
  | F (function : Nat)
  | Char (character : Char)
  | Null
  | Esc
  | CapsLock
  | ScrollLock
  | NumLock
  | PrintScreen
  | Pause
  | Menu
  | KeypadBegin
  | Media (name : List Char)
  | Modifier (name : List Char)
  deriving DecidableEq

structure KeyModifiers where
  shift : Bool
  control : Bool
  alt : Bool
  super : Bool
  hyper : Bool
  metaKey : Bool
  deriving DecidableEq

namespace KeyModifiers

def NONE : KeyModifiers := ⟨false, false, false, false, false, false⟩
def SHIFT : KeyModifiers := { NONE with shift := true }
def CONTROL : KeyModifiers := { NONE with control := true }
def CONTROL_SHIFT : KeyModifiers := { CONTROL with shift := true }
def ALT_GR : KeyModifiers := { CONTROL with alt := true }
def ALT_GR_SHIFT : KeyModifiers := { ALT_GR with shift := true }

end KeyModifiers

inductive KeyEventKind where
  | Press
  | Repeat
  | Release
  deriving DecidableEq

structure KeyEvent where
  code : KeyCode
  modifiers : KeyModifiers
  kind : KeyEventKind

/-- `KeyEvent::new`. -/
def KeyEvent.new (code : KeyCode) (modifiers : KeyModifiers) : KeyEvent :=
  ⟨code, modifiers, .Press⟩

inductive Event where
  | FocusGained
  | FocusLost
  | Key (key : KeyEvent)
  | Mouse
  | Paste (data : List Char)
  | Resize (width height : Nat)

/-! ## Bindings -/

inductive ActionId where
  | InsertCharacter
  | InsertNewline
  | Backspace
  | Submit
  | ToggleHelp
  | Quit
  | SelectInteractionOption
  | CancelInteraction
  deriving DecidableEq

inductive KeyPattern where
  | Exact (code : KeyCode) (modifiers : KeyModifiers)
  | Text
  deriving DecidableEq

def isTextInput (character : Char) (modifiers : KeyModifiers) : Bool :=
  ¬ isControl character ∧
    modifiers ∈ [.NONE, .SHIFT, .ALT_GR, .ALT_GR_SHIFT]

namespace KeyPattern

def isText : KeyPattern → Bool
  | .Text => true
  | .Exact .. => false

def hits (self : KeyPattern) (key : KeyEvent) : Bool :=
  match self with
  | .Exact code modifiers => key.code = code ∧ key.modifiers = modifiers
  | .Text =>
      match key.code with
      | .Char character => isTextInput character key.modifiers
      | _ => false

end KeyPattern

section

variable {Value : Type}

def ActionId.action (self : ActionId) (key : KeyEvent) : Option (Action Value) :=
  match self with
  | .InsertCharacter =>
      match key.code with
      | .Char character => some (.Insert character)
      | _ => none
  | .InsertNewline => some .InsertNewline
  | .Backspace => some .Backspace
  | .Submit => some .Submit
  | .ToggleHelp => some .ToggleHelp
  | .Quit => some .Quit
  | .SelectInteractionOption =>
      match key.code with
      | .Char digit =>
          if '1' ≤ digit ∧ digit ≤ '9' then some (.SelectInteractionOption digit) else none
      | _ => none
  | .CancelInteraction => some .CancelInteraction

structure When (Value : Type) where
  name : String
  predicate : AppState Value → Bool

namespace When

def ALWAYS : When Value := ⟨"always", fun _ => true⟩

def INTERACTION_VISIBLE : When Value :=
  ⟨"interaction_visible", fun state => state.interaction.isSome⟩

def INTERACTION_HIDDEN : When Value :=
  ⟨"interaction_hidden", fun state => state.interaction.isNone⟩

end When

structure ActionBinding (Value : Type) where
  pattern : KeyPattern
  action : ActionId
  condition : When Value

/-- `ActionBinding::new`. -/
def ActionBinding.new (pattern : KeyPattern) (action : ActionId) : ActionBinding Value :=
  ⟨pattern, action, .ALWAYS⟩

structure ActionRegistry (Value : Type) where
  bindings : List (ActionBinding Value)

namespace ActionRegistry

/-- One tier of `resolve_key`: the latest binding that takes the key. -/
def resolveTier (self : ActionRegistry Value) (key : KeyEvent) (state : AppState Value)
    (textTier : Bool) : Option (Action Value) :=
  self.bindings.reverse.findSome? fun binding =>
    if binding.pattern.isText = textTier ∧ binding.condition.predicate state ∧
        binding.pattern.hits key then
      binding.action.action key
    else none

def resolveKey (self : ActionRegistry Value) (key : KeyEvent) (state : AppState Value) :
    Option (Action Value) :=
  [false, true].findSome? (self.resolveTier key state)

def actionForEvent (self : ActionRegistry Value) (event : Event) (state : AppState Value) :
    Option (Action Value) :=
  match event with
  | .Resize width height => some (.Resize ⟨width, height⟩)
  | .Paste data =>
      if When.INTERACTION_HIDDEN.predicate state then some (.Paste data) else none
  | .Key key =>
      if key.kind = .Press ∨ key.kind = .Repeat then self.resolveKey key state else none
  | _ => none

/-- `ActionRegistry::default`. -/
def default : ActionRegistry Value where
  bindings :=
    [⟨.Text, .InsertCharacter, .INTERACTION_HIDDEN⟩,
      ⟨.Exact .Backspace .NONE, .Backspace, .INTERACTION_HIDDEN⟩,
      ⟨.Exact .Enter .NONE, .Submit, .INTERACTION_HIDDEN⟩,
      ⟨.Exact .Enter .SHIFT, .InsertNewline, .INTERACTION_HIDDEN⟩,
      .new (.Exact (.F 1) .NONE) .ToggleHelp,
      .new (.Exact (.Char 'c') .CONTROL) .Quit,
      .new (.Exact (.Char 'C') .CONTROL) .Quit,
      .new (.Exact (.Char 'c') .CONTROL_SHIFT) .Quit,
      .new (.Exact (.Char 'C') .CONTROL_SHIFT) .Quit] ++
    (['1', '2', '3', '4', '5', '6', '7', '8', '9'].map fun digit =>
      ⟨.Exact (.Char digit) .NONE, .SelectInteractionOption, .INTERACTION_VISIBLE⟩) ++
    [⟨.Exact .Esc .NONE, .CancelInteraction, .INTERACTION_VISIBLE⟩]

end ActionRegistry

end

/-! ## Labels of keys -/

def keyName : KeyCode → List Char
  | .Char character => [character.toUpper]
  | .Backspace => "Backspace".toList
  | .Enter => "Enter".toList
  | .Left => "Left".toList
  | .Right => "Right".toList
  | .Up => "Up".toList
  | .Down => "Down".toList
  | .Home => "Home".toList
  | .End => "End".toList
  | .PageUp => "PageUp".toList
  | .PageDown => "PageDown".toList
  | .Tab => "Tab".toList
  | .BackTab => "BackTab".toList
  | .Delete => "Delete".toList
  | .Insert => "Insert".toList
  | .Esc => "Esc".toList
  | .F function => 'F' :: Nat.toDigits 10 function
  | .Null => "Null".toList
  | .CapsLock => "CapsLock".toList
  | .ScrollLock => "ScrollLock".toList
  | .NumLock => "NumLock".toList
  | .PrintScreen => "PrintScreen".toList
  | .Pause => "Pause".toList
  | .Menu => "Menu".toList
  | .KeypadBegin => "KeypadBegin".toList
  | .Media name => "Media(".toList ++ name ++ [')']
  | .Modifier name => "Modifier(".toList ++ name ++ [')']

def patternLabel : KeyPattern → Option (List Char)
  | .Text => none
  | .Exact code modifiers =>
      some ((if modifiers.control then "Ctrl+".toList else []) ++
        (if modifiers.alt then "Alt+".toList else []) ++
        (if modifiers.shift then "Shift+".toList else []) ++
        (if modifiers.super then "Super+".toList else []) ++
        (if modifiers.hyper then "Hyper+".toList else []) ++
        (if modifiers.metaKey then "Meta+".toList else []) ++ keyName code)

section

variable {Value : Type} [DecidableEq (Action Value)]

def ActionRegistry.bindingIsLive (self : ActionRegistry Value) (binding : ActionBinding Value)
    (state : AppState Value) : Bool :=
  match binding.pattern with
  | .Text => false
  | .Exact code modifiers =>
      if ¬ binding.condition.predicate state then false
      else
        match (binding.action.action (.new code modifiers) : Option (Action Value)) with
        | some action => self.resolveKey (.new code modifiers) state = some action
        | none => false

def ActionRegistry.bindingFor (self : ActionRegistry Value) (action : ActionId)
    (state : AppState Value) : Option (ActionBinding Value) :=
  self.bindings.find? fun binding => binding.action = action ∧ self.bindingIsLive binding state

def keyLabel (registry : ActionRegistry Value) (state : AppState Value) (action : ActionId) :
    Option (List Char) :=
  (registry.bindingFor action state).bind fun binding => patternLabel binding.pattern

/-! ## The lines of a prompt -/

inductive SemanticToken where
  | TextPrimary
  | Accent
  | Warning
  deriving DecidableEq

/-- A line that is drawn; a gap has no token. -/
structure Line where
  text : List Char
  token : Option SemanticToken
  bold : Bool
  deriving DecidableEq

def Line.raw (text : List Char) : Line := ⟨text, none, false⟩

def UNBOUND_LABEL : List Char := "unbound".toList
def INTERACTION_CANCEL : List Char := "Cancel".toList

def truncateAsciiLine (text : List Char) (width : Nat) : List Char :=
  if text.length ≤ width then text
  else if width = 0 then []
  else text.take (width - 1) ++ ['.']

def boundedTerminalLine (unicode : Unicode Value) (text : List Char) (width : Nat)
    (supportsUnicode : Bool) : List Char :=
  let line := (lines (sanitizeTerminalText text)).head?.getD []
  if supportsUnicode then truncateDisplayWidth unicode line width
  else
    truncateAsciiLine
      (line.map fun c => if c = '…' then '.' else if c.toNat < 128 then c else '?')
      (min width MAX_PLAIN_WIDTH)

/-- The first key that selects the option of this digit. -/
def interactionOptionKeyLabel (registry : ActionRegistry Value) (state : AppState Value)
    (optionKey : Char) : Option (List Char) :=
  registry.bindings.findSome? fun binding =>
    match binding.pattern with
    | .Text => none
    | .Exact code modifiers =>
        match registry.actionForEvent (.Key (.new code modifiers)) state with
        | some (.SelectInteractionOption selected) =>
            if selected = optionKey then patternLabel binding.pattern else none
        | _ => none

/-- The row of an option; an option without a digit has none. -/
def optionLine (unicode : Unicode Value) (supportsUnicode : Bool)
    (registry : ActionRegistry Value) (state : AppState Value) (width : Nat)
    (option : InteractionOption) (index : Nat) : Option Line :=
  (optionKey index).map fun key =>
    let text :=
      match interactionOptionKeyLabel registry state key with
      | some keys => keys ++ ' ' :: option.label
      | none => '(' :: UNBOUND_LABEL ++ ") ".toList ++ option.label
    ⟨boundedTerminalLine unicode text width supportsUnicode, some .Accent, false⟩

def titleLine (unicode : Unicode Value) (supportsUnicode : Bool) (width : Nat)
    (prompt : InteractionPrompt) : Line :=
  ⟨boundedTerminalLine unicode prompt.title (min width INTERACTION_MAX_TITLE_COLUMNS)
    supportsUnicode, some .Warning, true⟩

def bodyLine (unicode : Unicode Value) (supportsUnicode : Bool) (width : Nat)
    (body : List Char) : Line :=
  ⟨boundedTerminalLine unicode body (min width INTERACTION_MAX_BODY_COLUMNS) supportsUnicode,
    some .TextPrimary, false⟩

def interactionLines (unicode : Unicode Value) (supportsUnicode : Bool)
    (registry : ActionRegistry Value) (state : AppState Value) (area : Viewport) : List Line :=
  match state.interaction with
  | none => []
  | some prompt =>
      let height := area.height
      let requiredBodyRows := if prompt.bodyLines ≠ [] then 1 else 0
      let minimumRows := 1 + requiredBodyRows + prompt.options.length
      if height < minimumRows then []
      else
        let cancelKeys := keyLabel registry state .CancelInteraction
        let remainingRows := height - minimumRows
        let showCancel : Bool := cancelKeys.isSome ∧ 0 < remainingRows
        let remainingRows := remainingRows - if showCancel then 1 else 0
        let gapBeforeBody : Bool := prompt.bodyLines ≠ [] ∧ 0 < remainingRows
        let remainingRows := remainingRows - if gapBeforeBody then 1 else 0
        let gapAfterBody : Bool := 0 < remainingRows
        let remainingRows := remainingRows - if gapAfterBody then 1 else 0
        let bodyRows :=
          requiredBodyRows + min remainingRows (prompt.bodyLines.length - requiredBodyRows)
        [titleLine unicode supportsUnicode area.width prompt] ++
          (if gapBeforeBody then [.raw []] else []) ++
          (prompt.bodyLines.take bodyRows).map (bodyLine unicode supportsUnicode area.width) ++
          (if gapAfterBody then [.raw []] else []) ++
          (prompt.options.zipIdx.filterMap fun (option, index) =>
            optionLine unicode supportsUnicode registry state area.width option index) ++
          match cancelKeys with
          | some keys =>
              if showCancel then
                [⟨boundedTerminalLine unicode (keys ++ ' ' :: INTERACTION_CANCEL) area.width
                  supportsUnicode, some .Accent, false⟩]
              else []
          | none => []

end

end MCode.Tui.App
