import MCode.Render.Plain

/-!
# Which control sequences are removed whole

The scanner of `sanitize_terminal_text` beside the grammar of the sequences that
it is to remove: control sequences, control strings and plain escape sequences.

Behind `ESC` the scanner knows the introducers of CSI, OSC, DCS, PM and APC and
takes any other character for the end of the sequence.  So the bytes behind the
first intermediate byte of an escape sequence are text to it, and so is the
payload of a string that `SOS` begins, in both of its forms.
-/

namespace MCode.Render

/-! ## The grammar -/

def ESC : Char := '\u001b'
def BEL : Char := '\u0007'
def ST : Char := '\u009c'

def isParameter (character : Char) : Prop := 0x30 ≤ character.toNat ∧ character.toNat ≤ 0x3f
def isIntermediate (character : Char) : Prop := 0x20 ≤ character.toNat ∧ character.toNat ≤ 0x2f
def isFinal (character : Char) : Prop := 0x40 ≤ character.toNat ∧ character.toNat ≤ 0x7e
def isEscapeFinal (character : Char) : Prop := 0x30 ≤ character.toNat ∧ character.toNat ≤ 0x7e

inductive StringKind where
  | OSC
  | DCS
  | SOS
  | PM
  | APC
  deriving DecidableEq

/-- The character behind `ESC`, and the introducer of eight bits. -/
def StringKind.sevenBit : StringKind → Char
  | .OSC => ']'
  | .DCS => 'P'
  | .SOS => 'X'
  | .PM => '^'
  | .APC => '_'

def StringKind.eightBit : StringKind → Char
  | .OSC => '\u009d'
  | .DCS => '\u0090'
  | .SOS => '\u0098'
  | .PM => '\u009e'
  | .APC => '\u009f'

inductive Terminator where
  | bel
  | eightBit
  | sevenBit
  deriving DecidableEq

def Terminator.chars : Terminator → List Char
  | .bel => [BEL]
  | .eightBit => [ST]
  | .sevenBit => [ESC, '\\']

/-- A complete sequence; `wide` tells the introducer of eight bits. -/
inductive Sequence where
  | csi (wide : Bool) (parameters intermediates : List Char) (last : Char)
      (hparameters : ∀ c ∈ parameters, isParameter c)
      (hintermediates : ∀ c ∈ intermediates, isIntermediate c) (hlast : isFinal last)
  | string (kind : StringKind) (wide : Bool) (payload : List Char) (terminator : Terminator)
      (hpayload : ∀ c ∈ payload, c ≠ ESC ∧ c ≠ BEL ∧ c ≠ ST)
  | escape (intermediates : List Char) (last : Char)
      (hintermediates : ∀ c ∈ intermediates, isIntermediate c) (hlast : isEscapeFinal last)
      (hplain : intermediates = [] → last ∉ ['[', ']', 'P', 'X', '^', '_'])

def Sequence.chars : Sequence → List Char
  | .csi wide parameters intermediates last _ _ _ =>
      (if wide then ['\u009b'] else [ESC, '[']) ++ parameters ++ intermediates ++ [last]
  | .string kind wide payload terminator _ =>
      (if wide then [kind.eightBit] else [ESC, kind.sevenBit]) ++ payload ++ terminator.chars
  | .escape intermediates last _ _ _ => ESC :: intermediates ++ [last]

/-- Text without control characters other than line feed, carriage return and tab. -/
structure Piece where
  text : List Char
  plain : ∀ c ∈ text, ¬ isControl c ∨ c ∈ ['\n', '\r', '\t']

/-- A text is a piece and then sequences, each with the piece behind it. -/
def weave (first : Piece) (rest : List (Sequence × Piece)) : List Char :=
  first.text ++ rest.flatMap fun entry => entry.1.chars ++ entry.2.text

/-- What is left of the text are its pieces. -/
def RemovedWhole (first : Piece) (rest : List (Sequence × Piece)) : Prop :=
  sanitizeTerminalText (weave first rest) =
    sanitizeTerminalText first.text ++ rest.flatMap fun entry => sanitizeTerminalText entry.2.text

/-! ## The sequences that the scanner knows -/

/-- Read as text, inside a control sequence or not, this much of a payload shows nothing and is
over with the terminator. -/
def Hidden (terminator : Terminator) : Bool → List Char → Bool
  | false, [] => true
  | true, [] => terminator = .sevenBit
  | false, character :: rest =>
      if character ∈ ['\u009d', '\u0090', '\u009e', '\u009f'] then true
      else if character = '\u009b' then Hidden terminator true rest
      else if isControl character ∧ character ∉ ['\n', '\r', '\t'] then
        Hidden terminator false rest
      else false
  | true, character :: rest =>
      if '@' ≤ character ∧ character ≤ '~' then Hidden terminator false rest
      else Hidden terminator true rest

/-- An escape sequence has no intermediate byte, and an `SOS` string has nothing to show. -/
def Sequence.Known : Sequence → Prop
  | .csi .. => True
  | .string kind _ payload terminator _ => kind = .SOS → Hidden terminator false payload = true
  | .escape intermediates _ _ _ _ => intermediates = []

/-! ## Characters -/

theorem final_iff (c : Char) : ('@' ≤ c ∧ c ≤ '~') ↔ isFinal c := Iff.rfl

/-- Behind `ESC` a character below the letters ends the sequence. -/
theorem next_escape {c : Char} (h : c ∉ ['[', ']', 'P', '^', '_']) (peek : Option Char) :
    State.next .Escape c peek = (.Text, []) := by
  simp only [List.mem_cons, List.not_mem_nil, or_false, not_or] at h
  simp [State.next, h]

theorem next_visible {c : Char} (h : ¬ isControl c) (peek : Option Char) :
    State.next .Text c peek = (.Text, [c]) := by
  have hne (d : Char) (hd : isControl d) : c ≠ d := by
    intro heq
    rw [heq] at h
    exact h hd
  simp only [State.next, List.mem_cons, List.not_mem_nil, or_false]
  rw [if_neg (hne _ (by decide)), if_neg (hne _ (by decide)), if_neg, if_neg (hne _ (by decide)),
    if_neg (hne _ (by decide)), if_neg (hne _ (by decide)), if_pos h]
  rintro (hc | hc | hc | hc)
  all_goals exact hne _ (by decide) hc

/-- A control character that begins nothing is removed. -/
theorem next_removed {c : Char} (h : isControl c) (hkept : c ∉ ['\n', '\r', '\t'])
    (hbegins : c ∉ ['\u001b', '\u009b', '\u009d', '\u0090', '\u009e', '\u009f'])
    (peek : Option Char) : State.next .Text c peek = (.Text, []) := by
  simp only [List.mem_cons, List.not_mem_nil, or_false, not_or] at hkept hbegins
  simp [State.next, h, hkept, hbegins]

/-! ## Pieces -/

/-- A character of a piece leaves the scanner in text. -/
theorem next_plain {c : Char} (h : ¬ isControl c ∨ c ∈ ['\n', '\r', '\t']) (peek : Option Char) :
    (State.next .Text c peek).1 = .Text := by
  rcases h with hvisible | hkept
  · rw [next_visible hvisible]
  · simp only [List.mem_cons, List.not_mem_nil, or_false] at hkept
    rcases hkept with rfl | rfl | rfl <;> rfl

/-- A piece is read on its own where no line feed follows it. -/
theorem sanitize_piece {text tail : List Char}
    (h : ∀ c ∈ text, ¬ isControl c ∨ c ∈ ['\n', '\r', '\t']) (htail : tail.head? ≠ some '\n') :
    sanitizeFrom .Text (text ++ tail) = sanitizeFrom .Text text ++ sanitizeFrom .Text tail := by
  induction text with
  | nil => rfl
  | cons c rest ih =>
      have hplain := h c (.head rest)
      have hpushed : (State.next .Text c (rest ++ tail).head?).2 =
          (State.next .Text c rest.head?).2 := by
        cases rest with
        | cons d rest => rfl
        | nil =>
            by_cases hreturn : c = '\r'
            · subst hreturn
              show (if tail.head? ≠ some '\n' then ['\n'] else []) = _
              rw [if_pos htail]
              rfl
            · simp only [State.next]
              repeat' split
              all_goals rfl
      rw [List.cons_append, sanitizeFrom, sanitizeFrom, next_plain hplain, next_plain hplain, hpushed,
        ih fun d hd => h d (.tail c hd), List.append_assoc]

/-! ## Sequences -/

theorem sanitize_csi {skipped : List Char} (h : ∀ c ∈ skipped, ¬ isFinal c) (tail : List Char) :
    sanitizeFrom .Csi (skipped ++ tail) = sanitizeFrom .Csi tail := by
  induction skipped with
  | nil => rfl
  | cons c rest ih =>
      have hnext : State.next .Csi c (rest ++ tail).head? = (.Csi, []) := by
        rw [State.next, if_neg (mt (final_iff c).1 (h c (.head rest)))]
      rw [List.cons_append, sanitizeFrom, hnext, ih fun d hd => h d (.tail c hd)]
      rfl

theorem sanitize_final {c : Char} (h : isFinal c) (tail : List Char) :
    sanitizeFrom .Csi (c :: tail) = sanitizeFrom .Text tail := by
  rw [sanitizeFrom, State.next, if_pos ((final_iff c).2 h)]
  rfl

theorem sanitize_terminator (terminator : Terminator) (tail : List Char) :
    sanitizeFrom .String (terminator.chars ++ tail) = sanitizeFrom .Text tail := by
  cases terminator <;> rfl

theorem sanitize_string {payload : List Char} (h : ∀ c ∈ payload, c ≠ ESC ∧ c ≠ BEL ∧ c ≠ ST)
    (terminator : Terminator) (tail : List Char) :
    sanitizeFrom .String (payload ++ terminator.chars ++ tail) = sanitizeFrom .Text tail := by
  induction payload with
  | nil => exact sanitize_terminator terminator tail
  | cons c rest ih =>
      obtain ⟨hesc, hbel, hst⟩ := h c (.head rest)
      have hnext (peek : Option Char) : State.next .String c peek = (.String, []) := by
        have hends : ¬ (c = '\u0007' ∨ c = '\u009c') := not_or.2 ⟨hbel, hst⟩
        rw [State.next, if_neg hends]
        exact if_neg hesc
      rw [List.cons_append, List.cons_append, sanitizeFrom, hnext, ih fun d hd => h d (.tail c hd)]
      rfl

/-- What is hidden is removed with its terminator. -/
theorem sanitize_hidden {terminator : Terminator} {inside : Bool} {payload : List Char}
    (h : Hidden terminator inside payload = true)
    (hpayload : ∀ c ∈ payload, c ≠ ESC ∧ c ≠ BEL ∧ c ≠ ST) (tail : List Char) :
    sanitizeFrom (if inside then .Csi else .Text) (payload ++ terminator.chars ++ tail) =
      sanitizeFrom .Text tail := by
  induction payload generalizing inside with
  | nil =>
      cases inside with
      | false => cases terminator <;> rfl
      | true =>
          have hseven : terminator = .sevenBit := of_decide_eq_true h
          subst hseven
          rfl
  | cons c rest ih =>
      have hrest : ∀ d ∈ rest, d ≠ ESC ∧ d ≠ BEL ∧ d ≠ ST := fun d hd => hpayload d (.tail c hd)
      rw [List.cons_append, List.cons_append, sanitizeFrom]
      cases inside with
      | true =>
          rw [Hidden] at h
          rw [if_pos rfl, State.next]
          split at h
          · rename_i hfinal
            rw [if_pos hfinal]
            exact ih h hrest
          · rename_i hother
            rw [if_neg hother]
            exact ih h hrest
      | false =>
          rw [Hidden] at h
          rw [if_neg Bool.false_ne_true]
          split at h
          · rename_i hbegins
            have hnext (peek : Option Char) : State.next .Text c peek = (.String, []) := by
              simp only [List.mem_cons, List.not_mem_nil, or_false] at hbegins
              rcases hbegins with rfl | rfl | rfl | rfl <;> rfl
            rw [hnext, sanitize_string hrest]
            rfl
          · rename_i hbegins
            split at h
            · rename_i hcsi
              subst hcsi
              exact ih h hrest
            · rename_i hcsi
              split at h
              · rename_i hcontrol
                have hnext := next_removed hcontrol.1 hcontrol.2 (fun hmem => by
                  rcases List.mem_cons.1 hmem with hesc | hmem
                  · exact (hpayload c (.head rest)).1 hesc
                  · rcases List.mem_cons.1 hmem with hother | hmem
                    · exact hcsi hother
                    · exact hbegins hmem) (rest ++ terminator.chars ++ tail).head?
                rw [hnext]
                exact ih h hrest
              · cases h

theorem Sequence.head (self : Sequence) :
    ∃ c rest, self.chars = c :: rest ∧ c ≠ '\n' := by
  cases self with
  | csi wide parameters intermediates last =>
      cases wide with
      | false => exact ⟨_, _, rfl, by decide⟩
      | true => exact ⟨_, _, rfl, by decide⟩
  | string kind wide payload terminator =>
      cases wide with
      | false => exact ⟨_, _, rfl, by decide⟩
      | true => exact ⟨_, _, rfl, by cases kind <;> decide⟩
  | escape intermediates last => exact ⟨_, _, rfl, by decide⟩

/-- A known sequence is removed whole. -/
theorem sanitize_known {sequence : Sequence} (h : sequence.Known) (tail : List Char) :
    sanitizeFrom .Text (sequence.chars ++ tail) = sanitizeFrom .Text tail := by
  cases sequence with
  | csi wide parameters intermediates last hparameters hintermediates hlast =>
      have hskipped : ∀ c ∈ parameters ++ intermediates, ¬ isFinal c := by
        intro c hc hfinal
        unfold isFinal at hfinal
        rcases List.mem_append.1 hc with hc | hc
        · have hle := (hparameters c hc).2
          omega
        · have hle := (hintermediates c hc).2
          omega
      have hbody : sanitizeFrom .Csi (parameters ++ intermediates ++ ([last] ++ tail)) =
          sanitizeFrom .Text tail := by
        rw [sanitize_csi hskipped]
        exact sanitize_final hlast tail
      unfold Sequence.chars
      rw [List.append_assoc, List.append_assoc _ parameters, List.append_assoc]
      cases wide with
      | false => exact hbody
      | true => exact hbody
  | string kind wide payload terminator hpayload =>
      have hbody : sanitizeFrom .String (payload ++ terminator.chars ++ tail) =
          sanitizeFrom .Text tail := sanitize_string hpayload terminator tail
      unfold Sequence.chars
      rw [List.append_assoc, List.append_assoc, ← List.append_assoc payload]
      cases kind with
      | SOS =>
          have hhidden := sanitize_hidden (h rfl) hpayload tail
          cases wide with
          | false => exact hhidden
          | true => exact hhidden
      | OSC | DCS | PM | APC =>
          cases wide with
          | false => exact hbody
          | true => exact hbody
  | escape intermediates last hintermediates hlast hplain =>
      have hnone : intermediates = [] := h
      subst hnone
      have hlast : last ∉ ['[', ']', 'P', '^', '_'] := fun hmem => hplain rfl (by
        simp only [List.mem_cons, List.not_mem_nil, or_false] at hmem
        obtain rfl | rfl | rfl | rfl | rfl := hmem <;> simp)
      show sanitizeFrom .Escape (last :: tail) = _
      rw [sanitizeFrom, next_escape hlast]
      rfl

/-- What a scanner shows of a sequence: something, or it swallows the start of what follows. -/
def Fails (read : List Char → List Char) : Prop :=
  (∀ tail, read tail ≠ []) ∨ ∀ tail, read tail = sanitizeFrom .Csi tail

theorem Fails.congr {f g : List Char → List Char} (h : Fails f) (heq : ∀ tail, g tail = f tail) :
    Fails g := by
  rcases h with hshows | hswallows
  · exact .inl fun tail => heq tail ▸ hshows tail
  · exact .inr fun tail => (heq tail).trans (hswallows tail)

theorem sanitize_visible {c : Char} (h : ¬ isControl c) (tail : List Char) :
    sanitizeFrom .Text (c :: tail) = c :: sanitizeFrom .Text tail := by
  rw [sanitizeFrom, next_visible h]
  rfl

/-- A character of a piece shows something, at the latest with the line feed behind it. -/
theorem sanitize_plain_ne_nil {c : Char} (h : ¬ isControl c ∨ c ∈ ['\n', '\r', '\t'])
    (tail : List Char) : sanitizeFrom .Text (c :: tail) ≠ [] := by
  rcases h with hvisible | hkept
  · rw [sanitize_visible hvisible]
    exact List.cons_ne_nil _ _
  · simp only [List.mem_cons, List.not_mem_nil, or_false] at hkept
    rcases hkept with rfl | rfl | rfl
    · exact List.cons_ne_nil _ _
    · by_cases hfeed : tail.head? = some '\n'
      · obtain ⟨rest, rfl⟩ := List.head?_eq_some_iff.1 hfeed
        exact List.cons_ne_nil _ _
      · show (if tail.head? ≠ some '\n' then ['\n'] else []) ++ sanitizeFrom .Text tail ≠ []
        rw [if_pos hfeed]
        exact List.cons_ne_nil _ _
    · exact List.cons_ne_nil _ _

/-- What is not hidden of a payload fails. -/
theorem sanitize_shown {terminator : Terminator} {inside : Bool} {payload : List Char}
    (h : Hidden terminator inside payload = false)
    (hpayload : ∀ c ∈ payload, c ≠ ESC ∧ c ≠ BEL ∧ c ≠ ST) :
    Fails fun tail =>
      sanitizeFrom (if inside then .Csi else .Text) (payload ++ terminator.chars ++ tail) := by
  induction payload generalizing inside with
  | nil =>
      cases inside with
      | false => cases h
      | true =>
          refine .inr fun tail => ?_
          cases terminator with
          | sevenBit => cases h
          | bel => rfl
          | eightBit => rfl
  | cons c rest ih =>
      have hrest : ∀ d ∈ rest, d ≠ ESC ∧ d ≠ BEL ∧ d ≠ ST := fun d hd => hpayload d (.tail c hd)
      rw [Hidden.eq_def] at h
      cases inside with
      | true =>
          dsimp only at h
          split at h
          · rename_i hfinal
            exact (ih h hrest).congr fun tail => sanitize_final hfinal _
          · rename_i hother
            have hskipped : ∀ d ∈ [c], ¬ isFinal d := by
              intro d hd
              rw [List.mem_singleton.1 hd]
              exact mt (final_iff c).2 hother
            exact (ih h hrest).congr fun tail => sanitize_csi hskipped _
      | false =>
          dsimp only at h
          split at h
          · cases h
          · rename_i hbegins
            split at h
            · rename_i hcsi
              subst hcsi
              exact (ih h hrest).congr fun tail => rfl
            · rename_i hcsi
              split at h
              · rename_i hcontrol
                refine (ih h hrest).congr fun tail => ?_
                have hnext := next_removed hcontrol.1 hcontrol.2 (fun hmem => by
                  rcases List.mem_cons.1 hmem with hesc | hmem
                  · exact (hpayload c (.head rest)).1 hesc
                  · rcases List.mem_cons.1 hmem with hother | hmem
                    · exact hcsi hother
                    · exact hbegins hmem) (rest ++ terminator.chars ++ tail).head?
                rw [List.cons_append, List.cons_append, if_neg Bool.false_ne_true, sanitizeFrom,
                  hnext]
                rfl
              · rename_i hplain
                refine .inl fun tail => ?_
                exact sanitize_plain_ne_nil (by tauto) _

theorem visible_of_intermediate {c : Char} (h : isIntermediate c) : ¬ isControl c := by
  unfold isIntermediate at h
  unfold isControl
  omega

theorem visible_of_escapeFinal {c : Char} (h : isEscapeFinal c) : ¬ isControl c := by
  unfold isEscapeFinal at h
  unfold isControl
  omega

theorem sanitize_unknown {sequence : Sequence} (h : ¬ sequence.Known) :
    Fails fun tail => sanitizeFrom .Text (sequence.chars ++ tail) := by
  cases sequence with
  | csi => exact absurd trivial h
  | string kind wide payload terminator hpayload =>
      obtain ⟨hkind, hshown⟩ := Classical.not_imp.1 h
      subst hkind
      have hfails := sanitize_shown (Bool.eq_false_iff.2 hshown) hpayload
      refine hfails.congr fun tail => ?_
      unfold Sequence.chars
      rw [List.append_assoc, List.append_assoc, ← List.append_assoc payload]
      cases wide with
      | false => rfl
      | true => rfl
  | escape intermediates last hintermediates hlast =>
      cases intermediates with
      | nil => exact absurd rfl h
      | cons c rest =>
          have hc : c ∉ ['[', ']', 'P', '^', '_'] := by
            intro hmem
            have hle := (hintermediates c (.head rest)).2
            simp only [List.mem_cons, List.not_mem_nil, or_false] at hmem
            rcases hmem with rfl | rfl | rfl | rfl | rfl <;> revert hle <;> decide
          refine .inl fun tail => ?_
          have hread : sanitizeFrom .Text ((ESC :: c :: rest ++ [last]) ++ tail) =
              sanitizeFrom .Text (rest ++ [last] ++ tail) := by
            show sanitizeFrom .Escape (c :: (rest ++ [last] ++ tail)) = _
            rw [sanitizeFrom, next_escape hc]
            rfl
          show sanitizeFrom .Text ((ESC :: c :: rest ++ [last]) ++ tail) ≠ []
          rw [hread]
          cases rest with
          | nil => exact sanitize_plain_ne_nil (.inl (visible_of_escapeFinal hlast)) _
          | cons d rest =>
              have hd := hintermediates d (.tail c (.head rest))
              exact sanitize_plain_ne_nil (.inl (visible_of_intermediate hd)) _

/-! ## Texts -/

theorem weave_cons (first : Piece) (entry : Sequence × Piece) (rest : List (Sequence × Piece)) :
    weave first (entry :: rest) = first.text ++ (entry.1.chars ++ weave entry.2 rest) := by
  simp [weave]

theorem sanitize_weave (first : Piece) (entry : Sequence × Piece)
    (rest : List (Sequence × Piece)) :
    sanitizeTerminalText (weave first (entry :: rest)) =
      sanitizeTerminalText first.text ++
        sanitizeFrom .Text (entry.1.chars ++ weave entry.2 rest) := by
  rw [weave_cons]
  apply sanitize_piece first.plain
  obtain ⟨c, chars, hchars, hne⟩ := entry.1.head
  rw [hchars, List.cons_append, List.head?_cons]
  exact fun heq => hne (Option.some.inj heq)

/-- No text. -/
def Piece.empty : Piece := ⟨[], nofun⟩

/-- Text without any control character. -/
def Piece.visible (text : List Char) (h : (text.all fun c => ¬ isControl c) = true) : Piece :=
  ⟨text, fun c hc => .inl (List.all_iff_forall_prop.1 h c hc)⟩

/-- Behind a known sequence a text is read as if it began there. -/
theorem removedWhole_known {sequence : Sequence} (h : sequence.Known) (first next : Piece)
    (rest : List (Sequence × Piece)) :
    RemovedWhole first ((sequence, next) :: rest) ↔ RemovedWhole next rest := by
  unfold RemovedWhole
  rw [sanitize_weave, List.flatMap_cons, sanitize_known h]
  exact List.append_right_inj _

theorem flatMap_empty (sequences : List Sequence) :
    ((sequences.map fun sequence => (sequence, Piece.empty)).flatMap fun entry =>
      sanitizeTerminalText entry.2.text) = [] := by
  simp [Piece.empty, sanitizeTerminalText, sanitizeFrom]

/-- An unknown sequence is not removed whole from some text, whatever follows it. -/
theorem exists_not_removed {sequence : Sequence} (h : ¬ sequence.Known)
    (sequences : List Sequence) :
    ∃ next : Piece, ¬ RemovedWhole .empty
      ((sequence, next) :: sequences.map fun sequence => (sequence, Piece.empty)) := by
  rcases sanitize_unknown h with hshows | hswallows
  · refine ⟨.empty, fun hremoved => ?_⟩
    unfold RemovedWhole at hremoved
    rw [sanitize_weave, List.flatMap_cons, flatMap_empty] at hremoved
    exact hshows _ hremoved
  · refine ⟨.visible ['a', 'b'] (by decide), fun hremoved => ?_⟩
    unfold RemovedWhole at hremoved
    rw [sanitize_weave, List.flatMap_cons, flatMap_empty] at hremoved
    have hread := hswallows (weave (.visible ['a', 'b'] (by decide))
      (sequences.map fun sequence => (sequence, Piece.empty)))
    dsimp only at hread
    rw [hread] at hremoved
    have hfirst : some 'b' = some 'a' := congrArg List.head? hremoved
    exact absurd (Option.some.inj hfirst) (by decide)

/-- Exactly the sequences that the scanner knows are removed whole from every text that has
them. -/
theorem removed_whole_iff (sequences : List Sequence) :
    (∀ first rest, rest.map Prod.fst = sequences → RemovedWhole first rest) ↔
      ∀ sequence ∈ sequences, sequence.Known := by
  induction sequences with
  | nil =>
      constructor
      · intro _ sequence hmem
        cases hmem
      · intro _ first rest hnone
        rw [List.map_eq_nil_iff.1 hnone]
        simp [RemovedWhole, weave]
  | cons sequence sequences ih =>
      constructor
      · intro hall
        have hknown : sequence.Known := by
          by_contra hunknown
          obtain ⟨next, hnot⟩ := exists_not_removed hunknown sequences
          exact hnot (hall _ _ (by simp [Function.comp_def]))
        have hrest := ih.1 fun first rest hsequences =>
          (removedWhole_known hknown .empty first rest).1
            (hall .empty ((sequence, first) :: rest) (by rw [List.map_cons, hsequences]))
        intro other hmem
        rcases List.mem_cons.1 hmem with rfl | hmem
        · exact hknown
        · exact hrest other hmem
      · intro hknown first rest hsequences
        obtain ⟨entry, rest, rfl, hentry, hrest⟩ := List.map_eq_cons_iff.1 hsequences
        subst hentry
        refine (removedWhole_known (hknown entry.1 (.head _)) first entry.2 rest).2 ?_
        exact ih.2 (fun other hmem => hknown other (.tail _ hmem)) _ _ hrest

/-- The designation of a character set, which terminals get to reset their attributes, shows
its final byte. -/
theorem designation_shown :
    ¬ RemovedWhole .empty
      [(.escape ['('] 'B' (by simp [isIntermediate]) (by simp [isEscapeFinal]) (by simp),
        .visible "red".toList (by decide))] := by
  unfold RemovedWhole
  decide

end MCode.Render
