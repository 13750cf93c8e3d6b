import MCode.Tools.Names

/-!
# The limits of a search

The limiter of one invocation of `find` or `grep`: the bytes of the results that
are kept, the bytes read from the files, and why the search has stopped early.
Its counters are 64-bit words that wrap.

A search has one reader at a time, which settles what it has reserved before it
reserves anything else, so no bytes are in flight when it asks for more.

An allocation that finds no room in the address space ends the process, so what
is allocated is asked for with `allocate`.
-/

namespace MCode.Tools

/-- How many values a 64-bit word has. -/
def wordSize : Nat := 2 ^ 64

def saturatingAdd (a b : Nat) : Nat := min (a + b) (wordSize - 1)

/-- What `fetch_add` leaves in a word. -/
def fetchAdd (word added : Nat) : Nat := (word + added) % wordSize

/-- What `fetch_sub` leaves in a word. -/
def fetchSub (word taken : Nat) : Nat := (word + (wordSize - taken % wordSize)) % wordSize

/-- Room for so many bytes beside the live ones. -/
def allocate (live bytes : Nat) : Option Unit :=
  if live + bytes < wordSize then some () else none

theorem allocate_some {live bytes : Nat} {done : Unit} :
    allocate live bytes = some done ↔ live + bytes < wordSize := by
  simp [allocate]

theorem saturatingAdd_eq {a b : Nat} (h : a + b < wordSize) : saturatingAdd a b = a + b :=
  Nat.min_eq_left (by omega)

theorem fetchAdd_eq {word added : Nat} (h : word + added < wordSize) :
    fetchAdd word added = word + added :=
  Nat.mod_eq_of_lt h

theorem fetchSub_eq {word taken : Nat} (hword : word < wordSize) (h : taken ≤ word) :
    fetchSub word taken = word - taken := by
  simp only [fetchSub, wordSize] at *
  omega

/-- What has been added and taken off again leaves the word as it was. -/
theorem fetchSub_fetchAdd {word added : Nat} (hword : word < wordSize) :
    fetchSub (fetchAdd word added) added = word := by
  simp only [fetchSub, fetchAdd, wordSize] at *
  omega

/-! ## Limits -/

/-- The caps of an invocation that bear on what is reported. -/
structure Limits where
  scanBytes : Nat
  storedCeiling : Nat
  lineBytes : Nat
  outputBytes : Nat
  countBudget : Nat
  countBudget_lt : countBudget < wordSize
  maxResultBytes : Nat

def Limits.default : Limits where
  scanBytes := 512 * 1024 * 1024
  storedCeiling := 10000
  lineBytes := 500
  outputBytes := 100 * 1024
  countBudget := 100000
  countBudget_lt := by decide
  maxResultBytes := 4 * 1024 * 1024

/-! ## The limiter -/

inductive Interrupt where
  | Cancelled
  | TimeLimit

def Interrupt.reason : Interrupt → String
  | .Cancelled => "cancelled"
  | .TimeLimit => "time limit reached"

structure WalkLimiter where
  maxResultBytes : Nat
  resultBytes : Nat
  resultStoreTruncated : Bool
  /-- A release has taken off more than there was. -/
  underflown : Bool
  claimed : Nat
  quit : Bool
  stopReason : Option String
  deriving DecidableEq

namespace WalkLimiter

def new (limits : Limits) : WalkLimiter where
  maxResultBytes := min limits.maxResultBytes (wordSize - 1)
  resultBytes := 0
  resultStoreTruncated := false
  underflown := false
  claimed := 0
  quit := false
  stopReason := none

def tryReserveResultBytes (limiter : WalkLimiter) (added : Nat) : Bool × WalkLimiter :=
  let previous := limiter.resultBytes
  let limiter := { limiter with resultBytes := fetchAdd previous added }
  if limiter.maxResultBytes < saturatingAdd previous added then
    (false,
      { limiter with
        resultBytes := fetchSub limiter.resultBytes added
        resultStoreTruncated := true })
  else (true, limiter)

def releaseResultBytes (limiter : WalkLimiter) (released : Nat) : WalkLimiter :=
  { limiter with
    resultBytes := fetchSub limiter.resultBytes released
    underflown := limiter.underflown || limiter.resultBytes < released }

/-- The first reason wins. -/
def stop (limiter : WalkLimiter) (reason : String) : WalkLimiter :=
  { limiter with quit := true, stopReason := limiter.stopReason <|> some reason }

/-- Whether the search is to stop, when it may have been interrupted. -/
def check (limiter : WalkLimiter) (interrupted : Option Interrupt) : Bool × WalkLimiter :=
  if limiter.quit then (true, limiter)
  else
    match interrupted with
    | some interrupt => (true, limiter.stop interrupt.reason)
    | none => (false, limiter)

/-- How many bytes may be read; `none` when the budget is exhausted. -/
def reserveScan (limiter : WalkLimiter) (requested cap : Nat) : Option Nat × WalkLimiter :=
  if requested = 0 then (some 0, limiter)
  else if cap ≤ limiter.claimed then (none, limiter)
  else
    let granted := min (cap - limiter.claimed) requested
    (some granted, { limiter with claimed := limiter.claimed + granted })

def settleScan (limiter : WalkLimiter) (reserved actual : Nat) : WalkLimiter :=
  { limiter with claimed := limiter.claimed - (reserved - actual) }

/-- A refusal leaves its mark and nothing else. -/
theorem tryReserve_refused {limiter : WalkLimiter} {added : Nat}
    (hword : limiter.resultBytes < wordSize)
    (h : limiter.maxResultBytes < limiter.resultBytes + added)
    (hroom : limiter.resultBytes + added < wordSize) :
    limiter.tryReserveResultBytes added =
      (false, { limiter with resultStoreTruncated := true }) := by
  simp [tryReserveResultBytes, saturatingAdd_eq hroom, h, fetchSub_fetchAdd hword]

theorem tryReserve_granted {limiter : WalkLimiter} {added : Nat}
    (h : limiter.resultBytes + added ≤ limiter.maxResultBytes)
    (hroom : limiter.resultBytes + added < wordSize) :
    limiter.tryReserveResultBytes added =
      (true, { limiter with resultBytes := limiter.resultBytes + added }) := by
  simp [tryReserveResultBytes, saturatingAdd_eq hroom, h, fetchAdd_eq hroom]

/-- A release of what is there. -/
theorem releaseResultBytes_eq {limiter : WalkLimiter} {rest released : Nat}
    (hword : limiter.resultBytes < wordSize) (h : limiter.resultBytes = rest + released) :
    limiter.releaseResultBytes released = { limiter with resultBytes := rest } := by
  have hsub : fetchSub limiter.resultBytes released = rest := by
    rw [fetchSub_eq hword (by omega)]
    omega
  have henough : ¬limiter.resultBytes < released := by omega
  simp [releaseResultBytes, hsub, henough]

end WalkLimiter

end MCode.Tools
