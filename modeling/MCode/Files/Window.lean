import MCode.Lib.Utf8

/-!
# The window of a read

`window_text` of `mcode-tools/src/builtin/fs_io/mod.rs`: a read shows some lines
of a file, cut at a number of lines and then at a number of bytes, and says in a
notice which lines these are, so that the next read can go on behind them.

A text is its bytes, the `str::lines` of it follow the documentation, and since
each sum is then bounded by the number of lines, no addition has to saturate.

The notice counts the lines before the text is cut at `MAX_BYTES`: it is right
where the lines of the window fit, and only there.
-/

namespace MCode.Files

open MCode.Lib

abbrev Bytes := List UInt8

def LF : UInt8 := 0x0A
def CR : UInt8 := 0x0D

/-! ## The source's functions -/

def MAX_LINES : Nat := 2000
def MAX_BYTES : Nat := 50 * 1024

/-- One more byte at the front of the first line. -/
def pushByte (byte : UInt8) : List Bytes → List Bytes
  | [] => [[byte]]
  | line :: lines => (byte :: line) :: lines

/-- `str::lines`: a line feed ends a line, with a carriage return right before it,
and the last line may do without. -/
def lines : Bytes → List Bytes
  | [] => []
  | byte :: rest =>
      if byte = LF then [] :: lines rest
      else if byte = CR ∧ rest.head? = some LF then lines rest
      else pushByte byte (lines rest)

/-- `str::is_char_boundary`. -/
def isCharBoundary (text : Bytes) (index : Nat) : Bool :=
  match text[index]? with
  | some byte => index = 0 || !Utf8.isContinuation byte
  | none => index = text.length

/-- The loop of `truncate_bytes`, which stops at 0. -/
def boundaryBelow (text : Bytes) : Nat → Nat
  | 0 => 0
  | stop + 1 => if isCharBoundary text (stop + 1) then stop + 1 else boundaryBelow text stop

def truncateBytes (text : Bytes) (maxBytes : Nat) : Bytes × Bool :=
  if text.length ≤ maxBytes then (text, false)
  else (text.take (boundaryBelow text maxBytes), true)

/-- `selected.join("\n")`. -/
def joinLines (selected : List Bytes) : Bytes := List.intercalate [LF] selected

def windowStart (displayed : Bytes) (offset : Option Nat) : Nat :=
  min (offset.getD 1 - 1) (lines displayed).length

def windowEnd (displayed : Bytes) (offset limit : Option Nat) : Nat :=
  match limit with
  | some limit => min (windowStart displayed offset + limit) (lines displayed).length
  | none => (lines displayed).length

def cappedEnd (displayed : Bytes) (offset limit : Option Nat) : Nat :=
  min (windowEnd displayed offset limit) (windowStart displayed offset + MAX_LINES)

def selected (displayed : Bytes) (offset limit : Option Nat) : List Bytes :=
  ((lines displayed).drop (windowStart displayed offset)).take
    (cappedEnd displayed offset limit - windowStart displayed offset)

def notice (first last total : Nat) : Bytes :=
  Utf8.encode ("\n[output truncated: showing lines " ++ toString first ++ "-" ++ toString last ++
    " of " ++ toString total ++ "; re-invoke with offset/limit to read more]").toList

structure Window where
  text : Bytes
  totalLines : Nat
  returnedLines : Nat
  truncated : Bool

def windowText (displayed : Bytes) (offset limit : Option Nat) : Window :=
  let start := windowStart displayed offset
  let selected := selected displayed offset limit
  let (text, byteTruncated) := truncateBytes (joinLines selected) MAX_BYTES
  let truncated :=
    byteTruncated || decide (cappedEnd displayed offset limit < windowEnd displayed offset limit)
  ⟨if truncated then
      text ++ notice (start + 1) (start + selected.length) (lines displayed).length
    else text,
    (lines displayed).length, selected.length, truncated⟩

/-! ## One window -/

theorem boundaryBelow_le (text : Bytes) (stop : Nat) : boundaryBelow text stop ≤ stop := by
  induction stop with
  | zero => exact Nat.le_refl 0
  | succ stop ih =>
      rw [boundaryBelow]
      split
      · exact Nat.le_refl _
      · exact Nat.le_succ_of_le ih

/-- A text that fits stays, and another one loses its end. -/
theorem truncateBytes_cases (text : Bytes) (maxBytes : Nat) :
    (text.length ≤ maxBytes ∧ truncateBytes text maxBytes = (text, false)) ∨
    (maxBytes < text.length ∧
      ∃ stop ≤ maxBytes, truncateBytes text maxBytes = (text.take stop, true)) := by
  unfold truncateBytes
  by_cases hfits : text.length ≤ maxBytes
  · rw [if_pos hfits]
    exact Or.inl ⟨hfits, rfl⟩
  · rw [if_neg hfits]
    exact Or.inr ⟨Nat.lt_of_not_le hfits, _, boundaryBelow_le text maxBytes, rfl⟩

theorem windowStart_le (displayed : Bytes) (offset : Option Nat) :
    windowStart displayed offset ≤ (lines displayed).length := Nat.min_le_right ..

theorem cappedEnd_le (displayed : Bytes) (offset limit : Option Nat) :
    cappedEnd displayed offset limit ≤ (lines displayed).length := by
  have hend : windowEnd displayed offset limit ≤ (lines displayed).length := by
    unfold windowEnd
    split
    · exact Nat.min_le_right ..
    · exact Nat.le_refl _
  exact Nat.le_trans (Nat.min_le_left ..) hend

theorem start_le_cappedEnd (displayed : Bytes) (offset limit : Option Nat) :
    windowStart displayed offset ≤ cappedEnd displayed offset limit := by
  have hend : windowStart displayed offset ≤ windowEnd displayed offset limit := by
    have hstart := windowStart_le displayed offset
    unfold windowEnd
    split
    · exact Nat.le_min.2 ⟨Nat.le_add_right .., hstart⟩
    · exact hstart
  exact Nat.le_min.2 ⟨hend, Nat.le_add_right ..⟩

theorem selected_length (displayed : Bytes) (offset limit : Option Nat) :
    (selected displayed offset limit).length =
      cappedEnd displayed offset limit - windowStart displayed offset := by
  have hle := cappedEnd_le displayed offset limit
  rw [selected, List.length_take, List.length_drop]
  omega

theorem returnedLines_eq (displayed : Bytes) (offset limit : Option Nat) :
    (windowText displayed offset limit).returnedLines =
      (selected displayed offset limit).length := rfl

theorem long_truncated {displayed : Bytes} {offset limit : Option Nat}
    (h : MAX_BYTES < (joinLines (selected displayed offset limit)).length) :
    (windowText displayed offset limit).truncated = true := by
  cases truncateBytes_cases (joinLines (selected displayed offset limit)) MAX_BYTES with
  | inl hfits => exact absurd hfits.1 (Nat.not_le_of_lt h)
  | inr hcut =>
      obtain ⟨-, stop, -, hcut⟩ := hcut
      simp only [windowText, hcut, Bool.true_or]

/-- The lines that a read claims to show, by the numbers in its notice. -/
def claimedLines (displayed : Bytes) (offset limit : Option Nat) : List Bytes :=
  ((lines displayed).take
    (windowStart displayed offset + (windowText displayed offset limit).returnedLines)).drop
    (windowStart displayed offset)

/-- What a read shows before its notice contains each line that it claims. -/
def FullyShown (displayed : Bytes) (offset limit : Option Nat) : Prop :=
  ∃ body, (windowText displayed offset limit).text =
      body ++ (if (windowText displayed offset limit).truncated then
        notice (windowStart displayed offset + 1)
          (windowStart displayed offset + (windowText displayed offset limit).returnedLines)
          (windowText displayed offset limit).totalLines
        else []) ∧
    joinLines (claimedLines displayed offset limit) <+: body

theorem claimedLines_eq (displayed : Bytes) (offset limit : Option Nat) :
    claimedLines displayed offset limit = selected displayed offset limit := by
  rw [claimedLines, returnedLines_eq, selected_length, List.drop_take, Nat.add_sub_cancel_left]
  rfl

/-- The claimed lines are all shown where they fit. -/
theorem fullyShown_iff (displayed : Bytes) (offset limit : Option Nat) :
    FullyShown displayed offset limit ↔
      (joinLines (selected displayed offset limit)).length ≤ MAX_BYTES := by
  rw [FullyShown, claimedLines_eq]
  cases truncateBytes_cases (joinLines (selected displayed offset limit)) MAX_BYTES with
  | inl hfits =>
      obtain ⟨hfits, hcut⟩ := hfits
      refine iff_of_true ⟨joinLines (selected displayed offset limit), ?_, List.prefix_refl _⟩
        hfits
      simp only [windowText, hcut]
      split <;> simp
  | inr hcut =>
      obtain ⟨hlong, stop, hstop, hcut⟩ := hcut
      refine iff_of_false ?_ (Nat.not_le_of_lt hlong)
      rintro ⟨body, htext, hprefix⟩
      simp only [windowText, hcut, Bool.true_or, if_true] at htext
      -- what stands before the notice is too short
      have hbody := List.append_cancel_right htext
      have hle := hprefix.length_le
      rw [← hbody, List.length_take] at hle
      omega

/-! ## Reads that follow the notice -/

/-- The offset behind the last claimed line. -/
def nextOffset (displayed : Bytes) (offset limit : Option Nat) : Option Nat :=
  some (windowStart displayed offset + (windowText displayed offset limit).returnedLines + 1)

/-- The offsets of reads of which each goes on where the notice of the one before
it says, up to one without a notice. -/
inductive Follows (displayed : Bytes) (limit : Option Nat) :
    Option Nat → List (Option Nat) → Prop where
  | last {offset : Option Nat} (h : (windowText displayed offset limit).truncated = false) :
      Follows displayed limit offset [offset]
  | next {offset : Option Nat} {offsets : List (Option Nat)}
      (h : (windowText displayed offset limit).truncated = true)
      (rest : Follows displayed limit (nextOffset displayed offset limit) offsets) :
      Follows displayed limit offset (offset :: offsets)

/-- The next read starts where the window was capped. -/
theorem nextOffset_start (displayed : Bytes) (offset limit : Option Nat) :
    windowStart displayed (nextOffset displayed offset limit) =
      cappedEnd displayed offset limit := by
  have hstart := start_le_cappedEnd displayed offset limit
  have hend := cappedEnd_le displayed offset limit
  rw [nextOffset, returnedLines_eq, selected_length, windowStart, Option.getD_some]
  omega

/-- A window that is cut has a line. -/
theorem truncated_progress {displayed : Bytes} {offset limit : Option Nat}
    (h : (windowText displayed offset limit).truncated = true) :
    windowStart displayed offset < cappedEnd displayed offset limit := by
  cases truncateBytes_cases (joinLines (selected displayed offset limit)) MAX_BYTES with
  | inl hfits =>
      simp only [windowText, hfits.2, Bool.false_or, decide_eq_true_eq] at h
      have hmax : 0 < MAX_LINES := by decide
      rw [cappedEnd] at h ⊢
      have hstart := start_le_cappedEnd displayed offset limit
      rw [cappedEnd] at hstart
      omega
  | inr hcut =>
      have hlong := hcut.1
      refine Nat.lt_of_not_le fun hle => ?_
      have hempty : selected displayed offset limit = [] :=
        List.eq_nil_of_length_eq_zero (by rw [selected_length]; omega)
      rw [hempty] at hlong
      exact absurd hlong (by decide)

theorem not_truncated_end {displayed : Bytes} {offset limit : Option Nat}
    (h : (windowText displayed offset limit).truncated = false) :
    cappedEnd displayed offset limit = windowEnd displayed offset limit := by
  have hcapped : ¬ cappedEnd displayed offset limit < windowEnd displayed offset limit := by
    intro hlt
    simp [windowText, hlt] at h
  exact Nat.le_antisymm (Nat.min_le_left ..) (Nat.le_of_not_lt hcapped)

theorem follows_exists (displayed : Bytes) (limit : Option Nat) (offset : Option Nat) :
    ∃ offsets, Follows displayed limit offset offsets := by
  induction hleft : (lines displayed).length - windowStart displayed offset
    using Nat.strongRecOn generalizing offset with
  | ind left ih =>
      cases htruncated : (windowText displayed offset limit).truncated with
      | false => exact ⟨_, .last htruncated⟩
      | true =>
          have hprogress := truncated_progress htruncated
          have hend := cappedEnd_le displayed offset limit
          have hnext := nextOffset_start displayed offset limit
          obtain ⟨offsets, hrest⟩ := ih _ (by omega) (nextOffset displayed offset limit) rfl
          exact ⟨_, .next htruncated hrest⟩

theorem take_drop_append {α : Type*} {start middle stop : Nat} (hstart : start ≤ middle)
    (hstop : middle ≤ stop) (all : List α) :
    (all.take middle).drop start ++ (all.take stop).drop middle = (all.take stop).drop start := by
  have hmiddle : all.take middle = (all.take stop).take middle := by
    rw [List.take_take, Nat.min_eq_left hstop]
  have hdrop : (all.take stop).drop middle = ((all.take stop).drop start).drop (middle - start) := by
    rw [List.drop_drop, Nat.add_sub_cancel' hstart]
  rw [hmiddle, List.drop_take, hdrop, List.take_append_drop]

/-- The claimed lines of such reads are the lines from the first window on, each
once. -/
theorem Follows.lines {displayed : Bytes} {limit offset : Option Nat}
    {offsets : List (Option Nat)} (h : Follows displayed limit offset offsets) :
    ∃ stop, windowStart displayed offset ≤ stop ∧ stop ≤ (lines displayed).length ∧
      offsets.flatMap (fun offset => claimedLines displayed offset limit) =
        ((lines displayed).take stop).drop (windowStart displayed offset) ∧
      (limit = none → stop = (lines displayed).length) := by
  have hown : ∀ offset, claimedLines displayed offset limit =
      ((MCode.Files.lines displayed).take (cappedEnd displayed offset limit)).drop
        (windowStart displayed offset) := fun offset => by
    rw [claimedLines_eq, selected, List.drop_take]
  induction h with
  | last hlast =>
      rename_i offset
      refine ⟨cappedEnd displayed offset limit, start_le_cappedEnd .., cappedEnd_le .., ?_, ?_⟩
      · rw [List.flatMap_singleton, hown]
      · intro hnone
        rw [not_truncated_end hlast, hnone]
        rfl
  | next hnext rest ih =>
      rename_i offset offsets
      obtain ⟨stop, hstart, hstop, hlines, hall⟩ := ih
      rw [nextOffset_start] at hstart hlines
      refine ⟨stop, Nat.le_trans (start_le_cappedEnd ..) hstart, hstop, ?_, hall⟩
      rw [List.flatMap_cons, hlines, hown]
      -- the two ranges meet where the first window was capped
      exact take_drop_append (start_le_cappedEnd displayed offset limit) hstart _

/-- A read shows every line that its notice claims where the lines of its window
fit, and only there.  The reads that follow the notices come to an end, and they
show each line of the file once if all their windows fit. -/
theorem paging_iff (displayed : Bytes) (offset limit : Option Nat) :
    (FullyShown displayed offset limit ↔
      (joinLines (selected displayed offset limit)).length ≤ MAX_BYTES) ∧
    ∃ offsets stop, Follows displayed limit offset offsets ∧
      ((∀ offset ∈ offsets, FullyShown displayed offset limit) ↔
        ∀ offset ∈ offsets, (joinLines (selected displayed offset limit)).length ≤ MAX_BYTES) ∧
      offsets.flatMap (fun offset => claimedLines displayed offset limit) =
        ((lines displayed).take stop).drop (windowStart displayed offset) ∧
      (limit = none → stop = (lines displayed).length) := by
  obtain ⟨offsets, hfollows⟩ := follows_exists displayed limit offset
  obtain ⟨stop, -, -, hlines, hall⟩ := hfollows.lines
  exact ⟨fullyShown_iff displayed offset limit, offsets, stop, hfollows,
    forall₂_congr fun offset _ => fullyShown_iff displayed offset limit, hlines, hall⟩

theorem lines_single {text : Bytes} (hne : text ≠ []) (h : ∀ byte ∈ text, byte ≠ LF ∧ byte ≠ CR) :
    lines text = [text] := by
  induction text with
  | nil => exact absurd rfl hne
  | cons byte rest ih =>
      obtain ⟨hlf, hcr⟩ := h byte (List.mem_cons_self ..)
      rw [lines, if_neg hlf, if_neg fun hboth => hcr hboth.1]
      cases rest with
      | nil => rfl
      | cons next rest =>
          rw [ih (by simp) fun byte hin => h byte (List.mem_cons_of_mem _ hin)]
          rfl

/-- The line `a` and one of as many `x` as a read may show. -/
def longSecond : Bytes := 0x61 :: LF :: List.replicate MAX_BYTES 0x78

/-- Both lines are claimed though the second is cut, and the read that goes on
behind them has nothing left to show. -/
theorem long_line_lost :
    ¬ FullyShown longSecond none none ∧ (windowText longSecond none none).truncated = true ∧
      (windowText longSecond none none).returnedLines = 2 ∧
      selected longSecond (nextOffset longSecond none none) none = [] := by
  have hsecond : lines (List.replicate MAX_BYTES 0x78) = [List.replicate MAX_BYTES 0x78] :=
    lines_single (by rw [Ne, List.replicate_eq_nil_iff]; decide) fun byte hin => by
      rw [List.eq_of_mem_replicate hin]
      decide
  have hlines : lines longSecond = [[0x61], List.replicate MAX_BYTES 0x78] := by
    rw [longSecond, lines, if_neg (by decide), if_neg (by decide), lines, if_pos rfl, hsecond]
    rfl
  have hselected : selected longSecond none none = [[0x61], List.replicate MAX_BYTES 0x78] := by
    rw [selected, cappedEnd, windowEnd, windowStart, hlines]
    rfl
  have hlong : MAX_BYTES < (joinLines (selected longSecond none none)).length := by
    rw [hselected]
    simp only [joinLines, List.intercalate, List.intersperse, List.flatten_cons,
      List.flatten_nil, List.length_append, List.length_replicate, List.length_cons,
      List.length_nil]
    omega
  have hreturned : (windowText longSecond none none).returnedLines = 2 := by
    rw [returnedLines_eq, hselected, List.length_cons, List.length_singleton]
  refine ⟨fun hshown => ?_, long_truncated hlong, hreturned, ?_⟩
  · exact absurd ((fullyShown_iff ..).1 hshown) (Nat.not_le_of_lt hlong)
  · rw [← List.length_eq_zero_iff, selected_length, nextOffset_start, cappedEnd, nextOffset_start,
      cappedEnd, windowEnd, windowStart, windowEnd, hlines]
    decide

end MCode.Files
