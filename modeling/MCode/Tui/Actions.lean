import MCode.Tui.Scrollback

/-!
# The pure reducer

`mcode-tui/src/editor.rs`, `state.rs`, `layout.rs` and the reducer of
`actions.rs`: one action on one state gives effects and the next state.

The layout is computed by `ratatui`, a parameter: the part of an area that is
left between rows of fixed heights is known where these fit, and a border takes
one cell on each side.  Every action may change the region that the transcript
gets; the reducer then cuts the scroll offset once more.

The placeholder of the input is never changed and is left out.  The caret is a
place among the characters, where the source has it among the bytes.
-/

namespace MCode.Tui.App

open MCode.Render MCode.Tools

/-! ## The editor -/

structure LineEditor where
  buffer : List Char
  cursor : Nat
  deriving DecidableEq

namespace LineEditor

def new : LineEditor := ⟨[], 0⟩

/-- The text behind the caret goes behind what is inserted. -/
def insertStr (self : LineEditor) (text : List Char) : LineEditor :=
  ⟨self.buffer.take self.cursor ++ text ++ self.buffer.drop self.cursor,
    self.cursor + text.length⟩

def insert (self : LineEditor) (character : Char) : LineEditor × Bool :=
  if isControl character ∧ character ≠ '\n' then (self, false)
  else (self.insertStr [character], true)

def insertNewline (self : LineEditor) : LineEditor × Bool := self.insert '\n'

def paste (self : LineEditor) (text : List Char) : LineEditor × Bool :=
  if sanitizeTerminalText text = [] then (self, false)
  else (self.insertStr (sanitizeTerminalText text), true)

variable {Value : Type} (unicode : Unicode Value)

/-- Where the graphemes of a text begin. -/
def graphemeStarts : Nat → List (List Char) → List Nat
  | _, [] => []
  | start, grapheme :: rest => start :: graphemeStarts (start + grapheme.length) rest

def prevGraphemeBoundary (text : List Char) (index : Nat) : Nat :=
  let index := min index text.length
  if index = 0 then 0
  else
    ((graphemeStarts 0 (unicode.graphemes text)).reverse.find? fun start => start < index).getD 0

def backspace (self : LineEditor) : LineEditor × Bool :=
  if self.cursor = 0 then (self, false)
  else
    let start := prevGraphemeBoundary unicode self.buffer self.cursor
    (⟨self.buffer.take start ++ self.buffer.drop self.cursor, start⟩, true)

def replace (self : LineEditor) (text : List Char) : LineEditor × Bool :=
  if self.buffer = text ∧ self.cursor = text.length then (self, false)
  else (⟨text, text.length⟩, true)

/-- The editor without its text, and the text. -/
def take (self : LineEditor) : LineEditor × List Char := (⟨[], 0⟩, self.buffer)

end LineEditor

/-! ## State -/

inductive ThemeSelection where
  | Auto
  | Dark
  | Light
  | Named (name : List Char)
  deriving DecidableEq

inductive BackgroundClass where
  | Dark
  | Light
  deriving DecidableEq

def STATUS_READY : List Char := "Ready".toList

structure AppState (Value : Type) where
  viewport : Viewport
  scrollback : Scrollback Value
  status : List Char
  editor : LineEditor
  themeSelection : ThemeSelection
  detectedBackground : Option BackgroundClass
  helpVisible : Bool
  interaction : Option InteractionPrompt

def AppState.new {Value : Type} (viewport : Viewport) : AppState Value where
  viewport := viewport
  scrollback := .new DEFAULT_SCROLLBACK_BLOCKS
  status := STATUS_READY
  editor := .new
  themeSelection := .Auto
  detectedBackground := none
  helpVisible := false
  interaction := none

/-! ## Layout -/

/-- `Layout::vertical` for a logo, a body that takes what is left, an input and a status,
and `Block::bordered().inner`. -/
structure Ratatui where
  body : Nat → Nat → Nat → Viewport → Viewport
  inner : Viewport → Viewport
  body_eq : ∀ logo input status area, logo + input + status ≤ area.height →
    body logo input status area = ⟨area.width, area.height - (logo + input + status)⟩
  inner_eq : ∀ area, inner area = ⟨area.width - 2, area.height - 2⟩

def MAX_INPUT_INNER_LINES : Nat := 6
def LOGO_ROWS : Nat := 4

section

variable {Value : Type}

def AppState.extraInputLines (state : AppState Value) : Nat :=
  if state.interaction.isSome ∨ state.editor.buffer = [] then 0
  else min ((state.editor.buffer.splitOn '\n').length - 1) (MAX_INPUT_INNER_LINES - 1)

def statusHeight (area : Viewport) : Nat := if 0 < area.height then 1 else 0

def AppState.inputHeight (state : AppState Value) (area : Viewport) : Nat :=
  if 4 ≤ area.height then
    min (3 + state.extraInputLines) (area.height - (statusHeight area + 1))
  else area.height - statusHeight area

def AppState.logoHeight (state : AppState Value) (area : Viewport) : Nat :=
  if state.interaction.isSome then 0
  else min LOGO_ROWS (area.height - (statusHeight area + state.inputHeight area + 1))

/-- The transcript of `view_layout`. -/
def viewLayout (ratatui : Ratatui) (area : Viewport) (state : AppState Value) : Viewport :=
  ratatui.inner
    (ratatui.body (state.logoHeight area) (state.inputHeight area) (statusHeight area) area)

def transcriptViewport (ratatui : Ratatui) (state : AppState Value) : Viewport :=
  viewLayout ratatui state.viewport state

end

/-! ## Actions and effects -/

inductive Action (Value : Type) where
  | Insert (character : Char)
  | InsertNewline
  | Backspace
  | Paste (text : List Char)
  | ReplaceInput (input : List Char)
  | Submit
  | ReplaceBlocks (blocks : List (RenderBlock Value))
  | SetStatus (status : List Char)
  | PresentInteraction (prompt : InteractionPrompt)
  | SelectInteractionOption (key : Char)
  | CancelInteraction
  | ScrollBy (olderLines : Int)
  | Resize (viewport : Viewport)
  | SelectTheme (selection : ThemeSelection)
  | DetectBackground (background : Option BackgroundClass)
  | ToggleHelp
  | Quit

inductive Invalidation where
  | Content
  | Layout
  | Theme
  deriving DecidableEq

inductive Effect where
  | Redraw (invalidation : Invalidation)
  | SubmitInput (input : List Char)
  | RequestQuit
  | InteractionResolved (requestId : List Char) (response : InteractionResponse)
  deriving DecidableEq

def interactionCancelled (requestId : List Char) : Effect :=
  .InteractionResolved requestId .Cancelled

section

variable {Value : Type}

def presentInteraction (next : AppState Value) (prompt : InteractionPrompt) :
    List Effect × AppState Value :=
  if ¬ prompt.presentableIn next.viewport then
    match next.interaction with
    | none => ([interactionCancelled prompt.requestId], next)
    | some current =>
        if current.requestId = prompt.requestId then
          ([interactionCancelled prompt.requestId, .Redraw .Layout],
            { next with interaction := none })
        else if ¬ current.presentableIn next.viewport then
          ([interactionCancelled prompt.requestId, interactionCancelled current.requestId,
            .Redraw .Layout], { next with interaction := none })
        else ([interactionCancelled prompt.requestId], next)
  else
    match next.interaction with
    | none => ([.Redraw .Layout], { next with interaction := some prompt })
    | some current =>
        if current.requestId ≠ prompt.requestId then
          ([interactionCancelled prompt.requestId], next)
        else if current ≠ prompt then
          ([.Redraw .Content], { next with interaction := some prompt })
        else ([], next)

def selectInteractionOption (next : AppState Value) (key : Char) :
    List Effect × AppState Value :=
  match next.interaction with
  | none => ([], next)
  | some prompt =>
      if ¬ prompt.presentableIn next.viewport then
        ([interactionCancelled prompt.requestId, .Redraw .Layout],
          { next with interaction := none })
      else
        match prompt.optionForKey key with
        | none => ([], next)
        | some option =>
            ([.InteractionResolved prompt.requestId (.Selected option.id), .Redraw .Layout],
              { next with interaction := none })

def cancelInteraction (next : AppState Value) : List Effect × AppState Value :=
  match next.interaction with
  | none => ([], next)
  | some prompt =>
      ([interactionCancelled prompt.requestId, .Redraw .Layout],
        { next with interaction := none })

def resize (next : AppState Value) (viewport : Viewport) : List Effect × AppState Value :=
  let changed : Bool := next.viewport ≠ viewport
  let effects := if changed then [.Redraw .Layout] else []
  let next := { next with viewport := viewport }
  match next.interaction with
  | none => (effects, next)
  | some prompt =>
      if ¬ prompt.presentableIn next.viewport then
        (effects ++ [interactionCancelled prompt.requestId] ++
          if changed then [] else [.Redraw .Layout], { next with interaction := none })
      else (effects, next)

def detectBackground (next : AppState Value) (background : Option BackgroundClass) :
    List Effect × AppState Value :=
  if next.detectedBackground ≠ background then
    ([.Redraw (if next.themeSelection = .Auto then .Theme else .Content)],
      { next with detectedBackground := background })
  else ([], next)

/-- What an edit does: the effect of a change, and the editor. -/
def edited (next : AppState Value) (result : LineEditor × Bool) : List Effect × AppState Value :=
  (if result.2 then [.Redraw .Content] else [], { next with editor := result.1 })

def scrolled (next : AppState Value) (result : Scrollback Value × Bool) :
    List Effect × AppState Value :=
  (if result.2 then [.Redraw .Content] else [], { next with scrollback := result.1 })

variable [DecidableEq (RenderBlock Value)] (unicode : Unicode Value) (ratatui : Ratatui)

/-- The `match` of `reduce`. -/
def applyAction (next : AppState Value) : Action Value → List Effect × AppState Value
  | .Insert character =>
      if ¬ isControl character then edited next (next.editor.insert character) else ([], next)
  | .InsertNewline => edited next next.editor.insertNewline
  | .Backspace => edited next (next.editor.backspace unicode)
  | .Paste text => if next.interaction = none then edited next (next.editor.paste text)
      else ([], next)
  | .ReplaceInput input => edited next (next.editor.replace input)
  | .Submit =>
      if trim next.editor.buffer ≠ [] then
        ([.SubmitInput next.editor.take.2, .Redraw .Content],
          { next with editor := next.editor.take.1 })
      else ([], next)
  | .ReplaceBlocks blocks => scrolled next (next.scrollback.replace blocks)
  | .SetStatus status =>
      if next.status ≠ status then ([.Redraw .Content], { next with status := status })
      else ([], next)
  | .PresentInteraction prompt => presentInteraction next prompt
  | .SelectInteractionOption key => selectInteractionOption next key
  | .CancelInteraction => cancelInteraction next
  | .ScrollBy olderLines =>
      scrolled next (next.scrollback.scrollBy unicode olderLines
        (.fromViewport (transcriptViewport ratatui next) 0))
  | .Resize viewport => resize next viewport
  | .SelectTheme selection =>
      if next.themeSelection ≠ selection then
        ([.Redraw .Theme], { next with themeSelection := selection })
      else ([], next)
  | .DetectBackground background => detectBackground next background
  | .ToggleHelp => ([.Redraw .Content], { next with helpVisible := !next.helpVisible })
  | .Quit =>
      let (effects, next) := cancelInteraction next
      (effects ++ [.RequestQuit], next)

def Effect.isRedraw : Effect → Bool
  | .Redraw _ => true
  | _ => false

/-- The end of `reduce`: where the region of the transcript is another, the offset is cut
to it. -/
def reclamp (state next : AppState Value) (effects : List Effect) :
    List Effect × AppState Value :=
  if transcriptViewport ratatui next ≠ transcriptViewport ratatui state then
    let result := next.scrollback.scrollBy unicode 0
      (.fromViewport (transcriptViewport ratatui next) 0)
    (if result.2 ∧ ¬ effects.any Effect.isRedraw then effects ++ [.Redraw .Content] else effects,
      { next with scrollback := result.1 })
  else (effects, next)

def reduce (state : AppState Value) (action : Action Value) : List Effect × AppState Value :=
  let (effects, next) := applyAction unicode ratatui state action
  reclamp unicode ratatui state next effects

end

end MCode.Tui.App
