import Mathlib.Order.Bounds.Basic
import Mathlib.Order.Nat
import ObjectModel.Proofs.Text.Copies

/-!
# First occurrences

A search tells the least offset at which a byte string occurs in another, and tells none only where it
occurs nowhere. Strings and buffers search alike, so a string and the buffer that it makes tell one offset
(`find_first`).
-/

namespace ObjectModel

open ObjectModel.Action Behavior

-- ---------------------------------------------------------------------------
-- Occurrences in bytes
-- ---------------------------------------------------------------------------

namespace Bytes

variable {needle bytes rest : Bytes} {byte : UInt8} {i : Nat}

/-- The bytes from an offset on are those of the needle, and none of them lies outside. -/
structure OccursAt (needle bytes : Bytes) (i : Nat) : Prop where
  inside : i + needle.length ≤ bytes.length
  window : bytes.extract i (i + needle.length) = needle

/-- The least of the offsets at which the needle occurs. -/
def FirstAt (needle bytes : Bytes) (i : Nat) : Prop := IsLeast {k | OccursAt needle bytes k} i

theorem occursAt_zero : OccursAt needle bytes 0 ↔ needle <+: bytes := by
  rw [List.prefix_iff_eq_take]
  constructor
  · rintro ⟨-, hwindow⟩
    simpa [List.extract_eq_take_drop] using hwindow.symm
  · intro h
    have hlength : needle.length ≤ bytes.length := by
      have := congrArg List.length h
      rw [List.length_take] at this
      omega
    exact ⟨by omega, by simpa [List.extract_eq_take_drop] using h.symm⟩

theorem occursAt_succ : OccursAt needle (byte :: rest) (i + 1) ↔ OccursAt needle rest i := by
  have hwindow : (byte :: rest).extract (i + 1) (i + 1 + needle.length) =
      rest.extract i (i + needle.length) := by
    simp only [List.extract_eq_take_drop, List.drop_succ_cons, Nat.add_sub_cancel_left]
  constructor
  · rintro ⟨hinside, h⟩
    exact ⟨by simpa [Nat.add_right_comm] using hinside, hwindow ▸ h⟩
  · rintro ⟨hinside, h⟩
    exact ⟨by simpa [Nat.add_right_comm] using hinside, hwindow ▸ h⟩

theorem firstAt_starting (h : needle <+: bytes) : FirstAt needle bytes i ↔ i = 0 := by
  have hzero : FirstAt needle bytes 0 := ⟨occursAt_zero.mpr h, fun _ _ => Nat.zero_le _⟩
  exact ⟨fun hi => hi.unique hzero, fun hi => hi ▸ hzero⟩

/-- Without an occurrence at the start, the first one is that in the rest. -/
theorem firstAt_succ (h : ¬ needle <+: byte :: rest) :
    FirstAt needle (byte :: rest) (i + 1) ↔ FirstAt needle rest i := by
  constructor
  · rintro ⟨hoccurs, hleast⟩
    refine ⟨occursAt_succ.mp hoccurs, fun k hk => ?_⟩
    exact Nat.le_of_succ_le_succ (hleast (occursAt_succ.mpr hk))
  · rintro ⟨hoccurs, hleast⟩
    refine ⟨occursAt_succ.mpr hoccurs, fun k hk => ?_⟩
    cases k with
    | zero => exact (h (occursAt_zero.mp hk)).elim
    | succ k => exact Nat.succ_le_succ (hleast (occursAt_succ.mp hk))

theorem findFrom?_eq_map (needle bytes : Bytes) (offset : Nat) :
    findFrom? needle offset bytes = (find? needle bytes).map (· + offset) := by
  unfold find?
  induction bytes generalizing offset with
  | nil => by_cases h : needle.isEmpty <;> simp [findFrom?, h]
  | cons byte rest ih =>
    by_cases h : needle.isPrefixOf (byte :: rest)
    · simp [findFrom?, h]
    · simp only [findFrom?, h, Bool.false_eq_true, if_false]
      rw [ih (offset + 1), ih (0 + 1), Option.map_map]
      congr 1
      funext k
      show k + (offset + 1) = k + (0 + 1) + offset
      omega

theorem find?_cons_starting (h : needle <+: byte :: rest) : find? needle (byte :: rest) = some 0 := by
  rw [find?, findFrom?, if_pos (List.isPrefixOf_iff_prefix.mpr h)]

theorem find?_cons (h : ¬ needle <+: byte :: rest) :
    find? needle (byte :: rest) = (find? needle rest).map (· + 1) := by
  rw [find?, findFrom?, if_neg (by rwa [List.isPrefixOf_iff_prefix]), findFrom?_eq_map]

/-- What is found is the least offset at which the needle occurs. -/
theorem find?_eq_some_iff : find? needle bytes = some i ↔ FirstAt needle bytes i := by
  induction bytes generalizing i with
  | nil =>
    cases needle with
    | nil => simpa [find?, findFrom?, eq_comm] using (firstAt_starting List.nil_prefix).symm
    | cons byte needle =>
      -- A needle with a byte has no place in no bytes.
      refine ⟨nofun, fun h => ?_⟩
      have hinside := h.1.inside
      rw [List.length_cons, List.length_nil] at hinside
      omega
  | cons byte rest ih =>
    by_cases hstarts : needle <+: byte :: rest
    · rw [find?_cons_starting hstarts, firstAt_starting hstarts, Option.some.injEq, eq_comm]
    · rw [find?_cons hstarts]
      cases i with
      | zero =>
        refine ⟨fun h => ?_, fun h => (hstarts (occursAt_zero.mp h.1)).elim⟩
        obtain ⟨_, -, hk⟩ := Option.map_eq_some_iff.mp h
        cases hk
      | succ i =>
        rw [firstAt_succ hstarts, ← ih, Option.map_eq_some_iff]
        simp

theorem find?_eq_none_iff : find? needle bytes = none ↔ ∀ i, ¬ OccursAt needle bytes i := by
  classical
  constructor
  · intro h i hi
    have hoccurs : ∃ k, OccursAt needle bytes k := ⟨i, hi⟩
    have hfirst : FirstAt needle bytes (Nat.find hoccurs) := Nat.isLeast_find hoccurs
    rw [← find?_eq_some_iff, h] at hfirst
    cases hfirst
  · intro h
    cases hfind : find? needle bytes with
    | none => rfl
    | some i =>
      rw [find?_eq_some_iff] at hfind
      exact (h i hfind.1).elim

theorem find?_nil (bytes : Bytes) : find? [] bytes = some 0 := by
  rw [find?_eq_some_iff, firstAt_starting List.nil_prefix]

theorem find?_of_length_lt (h : bytes.length < needle.length) : find? needle bytes = none := by
  rw [find?_eq_none_iff]
  intro i hi
  have hinside := hi.inside
  omega

/-- The int that tells where the needle occurs first, or -1 where it occurs nowhere. -/
inductive Tells (needle bytes : Bytes) (n : Int64) : Prop
  | first {i : Nat} (h : FirstAt needle bytes i) (hn : n.toInt = i)
  | nowhere (h : ∀ i, ¬ OccursAt needle bytes i) (hn : n = -1)

theorem Tells.toInt_eq {n : Int64} (h : Tells needle bytes n) (hfind : find? needle bytes = some i) :
    n.toInt = i := by
  rw [find?_eq_some_iff] at hfind
  cases h with
  | first hfirst hn => rw [hn, hfirst.unique hfind]
  | nowhere hnone => exact (hnone i hfind.1).elim

theorem tells_find (h : bytes.length ≤ Int64.maxValue.toInt) :
    Tells needle bytes (Strings.offsetOrMinusOne (find? needle bytes)) := by
  cases hfind : find? needle bytes with
  | none =>
    rw [find?_eq_none_iff] at hfind
    exact .nowhere hfind rfl
  | some i =>
    rw [find?_eq_some_iff] at hfind
    have hinside := hfind.1.inside
    exact .first hfind (Sequence.toInt_ofLength (by omega))

end Bytes

-- ---------------------------------------------------------------------------
-- What strings and buffers find
-- ---------------------------------------------------------------------------

variable {s : State} {o p : Ref} {text needle : String} {bytes : Bytes}

theorem ends_find_string (machine : Machine) (ho : s.payload o = .string text)
    (hp : s.payload p = .string needle) : (Builtin.stringFind.body machine [o, p]).Ends s
      (s.Makes (.int (Strings.offsetOrMinusOne (Bytes.find? (Bytes.ofText needle) (Bytes.ofText text)))))
      fun _ => False := by
  have hfirst : [o, p][0]? = some o := rfl
  have hsecond : [o, p][1]? = some p := rfl
  simp only [Builtin.body, Strings.find, ends_bind, Dispatcher.ends_textArgument_string _ hfirst ho,
    Dispatcher.ends_textArgument_string _ hsecond hp, ends_createInt]
  exact ⟨rfl, rfl⟩

theorem ends_find_buffer (host : Host) (rounds : Nat) (ho : s.HasBytes o bytes)
    (hp : s.payload p = .string needle) :
    (Builtin.bufferFind.body (machine host (rounds + 1)) [o, p]).Ends s
      (fun answer t => t.payload answer =
        .int (Strings.offsetOrMinusOne (Bytes.find? (Bytes.ofText needle) bytes)) ∧ s.Keeps t)
      (s.LacksMemory (Bytes.ofText needle).length) := by
  have hsecond : [o, p][1]? = some p := rfl
  have hheld : (s.withHeld ([o] :: s.held)).payload p = .string needle := hp
  simp only [Builtin.body, Buffers.find, ends_bind, ends_argument_first, Buffers.ends_sizedBytes _ ho.bytes,
    ends_holding]
  refine (Dispatcher.ends_bufferArgument_string host rounds hsecond hheld).imp ?_ ?_
  · intro copy t hbuffered
    have hcopy := hbuffered.unheld
    rw [Buffers.ends_sizedBytes _ hcopy.shown.bytes, ends_createInt]
    exact ⟨payload_made_next .., hcopy.keeps.thenMade _⟩
  · exact fun t hlacks => hlacks.unheld

def findInBoth (machine : Machine) (o p : Ref) : Action (Ref × Ref) :=
  askBoth machine o (fun o => Builtin.stringFind.body machine [o, p])
    fun copy => Builtin.bufferFind.body machine [copy, p]

theorem ends_findInBoth (host : Host) (rounds : Nat) (ho : s.payload o = .string text)
    (hp : s.payload p = .string needle) :
    (findInBoth (machine host (rounds + 1)) o p).Ends s
      (fun answers t => ∃ n, t.payload answers.1 = .int n ∧ t.payload answers.2 = .int n ∧
        Bytes.Tells (Bytes.ofText needle) (Bytes.ofText text) n)
      fun t => s.LacksMemoryAfter 0 (Bytes.ofText text).length t ∨
        s.LacksMemoryAfter 1 (Bytes.ofText needle).length t := by
  have hdirect := ends_find_string (machine host (rounds + 1)) ho hp
  refine (ends_askBoth host rounds ho (by simp [Payload.kind]) hdirect ?_ ?_).imp_value ?_
  · intro t copy hbuffered
    have hkept : t.payload p = .string needle := hbuffered.keeps.payload_eq hp (by simp [Payload.kind])
    exact (ends_find_buffer host rounds hbuffered.shown hkept).imp (fun _ _ h => h)
      fun _ h => .inr (h.after hbuffered.blocks)
  · exact fun _ => .inl
  · rintro answers t ⟨hfits, hfirst, hsecond⟩
    refine ⟨_, hfirst, hsecond, Bytes.tells_find ?_⟩
    have hlane := hfits.1
    rw [Memory.lane_eq] at hlane
    rw [Int64.toInt_maxValue]
    omega

/-- A search finds the least offset at which the needle is what the bytes have, and nothing only if it occurs
nowhere. So an empty needle is found at the start, and one that is longer than the bytes is not found. A string
tells this offset for the bytes of its text, or -1, and so does the buffer that it makes, with the same int. -/
theorem find_first (host : Host) (rounds : Nat) :
    (∀ needle bytes : Bytes,
      (∀ i, Bytes.find? needle bytes = some i ↔ Bytes.FirstAt needle bytes i) ∧
      (Bytes.find? needle bytes = none ↔ ∀ i, ¬ Bytes.OccursAt needle bytes i) ∧
      Bytes.find? [] bytes = some 0 ∧
      (bytes.length < needle.length → Bytes.find? needle bytes = none)) ∧
    ∀ (s : State) (o p : Ref) (text needle : String), s.payload o = .string text →
      s.payload p = .string needle →
      ((Bytes.ofText text).length ≤ Int64.maxValue.toInt →
        (Builtin.stringFind.body (machine host rounds) [o, p]).Ends s
          (fun answer t => ∃ n, t.payload answer = .int n ∧
            Bytes.Tells (Bytes.ofText needle) (Bytes.ofText text) n) fun _ => False) ∧
      (findInBoth (machine host (rounds + 1)) o p).Ends s
        (fun answers t => ∃ n, t.payload answers.1 = .int n ∧ t.payload answers.2 = .int n ∧
          Bytes.Tells (Bytes.ofText needle) (Bytes.ofText text) n)
        fun t => s.LacksMemoryAfter 0 (Bytes.ofText text).length t ∨
          s.LacksMemoryAfter 1 (Bytes.ofText needle).length t := by
  refine ⟨fun needle bytes => ⟨fun _ => Bytes.find?_eq_some_iff, Bytes.find?_eq_none_iff,
    Bytes.find?_nil bytes, Bytes.find?_of_length_lt⟩, fun s o p text needle ho hp => ⟨fun hlength => ?_, ?_⟩⟩
  · exact (ends_find_string _ ho hp).imp_value fun _ _ h => ⟨_, h.payload_eq, Bytes.tells_find hlength⟩
  · exact ends_findInBoth host rounds ho hp

/-- A string in which the needle, with a zero and a character of two bytes, begins twice before it is
there. -/
theorem find_first_again :
    let s := { Globals.bare {} .discard {} with
      heap := ⟨#[.singlet "None", .map [], .map [], .string "aaab\x00é", .string "ab\x00é"]⟩ }
    (Builtin.stringFind.body (machine {} 1) [⟨3⟩, ⟨4⟩]).Ends s (fun answer t => t.payload answer = .int 2)
        (fun _ => False) ∧
      (findInBoth (machine {} 1) ⟨3⟩ ⟨4⟩).Ends s
        (fun answers t => t.payload answers.1 = .int 2 ∧ t.payload answers.2 = .int 2) fun _ => False := by
  intro s
  have ho : s.payload ⟨3⟩ = .string "aaab\x00é" := rfl
  have hp : s.payload ⟨4⟩ = .string "ab\x00é" := rfl
  have hempty : s.memory.blocks.size = 0 := rfl
  clear_value s
  have hfind : Bytes.find? (Bytes.ofText "ab\x00é") (Bytes.ofText "aaab\x00é") = some 2 := by decide +kernel
  have htwo {n : Int64} (h : Bytes.Tells (Bytes.ofText "ab\x00é") (Bytes.ofText "aaab\x00é") n) : n = 2 :=
    Int64.toInt_inj.mp (h.toInt_eq hfind)
  have hfirst := (find_first {} 1).2 s _ _ _ _ ho hp
  have hboth := (find_first {} 0).2 s _ _ _ _ ho hp
  refine ⟨?_, ?_⟩
  · refine (hfirst.1 (by decide +kernel)).imp_value ?_
    rintro answer t ⟨n, hn, htells⟩
    rw [hn, htwo htells]
  · refine hboth.2.imp ?_ ?_
    · rintro answers t ⟨n, hdirect, hcopied, htells⟩
      rw [hdirect, hcopied, htwo htells]
      exact ⟨rfl, rfl⟩
    · rintro t (h | h)
      · exact State.not_lacksMemoryAfter (by decide +kernel) (by rw [hempty]; decide) h
      · exact State.not_lacksMemoryAfter (by decide +kernel) (by rw [hempty]; decide) h

end ObjectModel
