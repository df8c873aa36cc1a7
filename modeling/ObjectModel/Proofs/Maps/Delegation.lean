import ObjectModel.Builtin.Globals
import ObjectModel.Proofs.Errors.Raised
import ObjectModel.Proofs.Maps.Lookup

/-!
# Delegation from map to map

A lookup, or a store, that a map does not answer itself goes to the map under one of its hooks, and from
there on along a chain of maps, which may come back to where it was. How far it gets is a matter of the
calls and delegations that still fit.
-/

namespace ObjectModel

open ObjectModel.Action

-- ---------------------------------------------------------------------------
-- Chains of maps
-- ---------------------------------------------------------------------------

namespace State

/-- The map that a map delegates to under a name. -/
def heir? (s : State) (name : String) (map : Ref) : Option Ref :=
  (s.hook? map name).filter (s.kind · = .map)

/-- The maps that delegate one to the next under a name, from a first one on. -/
def chain (s : State) (name : String) : Ref → Nat → Option Ref
  | map, 0 => some map
  | map, n + 1 => (s.heir? name map).bind fun heir => s.chain name heir n

variable {s s₀ : State} {name : String} {map : Ref}

theorem chain_add (i j : Nat) :
    s.chain name map (i + j) = (s.chain name map i).bind fun m => s.chain name m j := by
  induction i generalizing map with
  | zero => simp [chain]
  | succ i ih =>
    rw [Nat.succ_add, chain, chain]
    cases s.heir? name map with
    | none => rfl
    | some heir => exact ih

theorem chain_isSome_of_le (hle : i ≤ j) (h : (s.chain name map j).isSome) :
    (s.chain name map i).isSome := by
  obtain ⟨k, rfl⟩ := Nat.exists_eq_add_of_le hle
  rw [chain_add] at h
  cases hi : s.chain name map i with
  | none => simp [hi] at h
  | some m => rfl

/-- A chain that meets a map twice has no end. -/
theorem chain_of_cycle (hlt : i < j) (hi : s.chain name map i = some m)
    (hj : s.chain name map j = some m) (n : Nat) : (s.chain name map n).isSome := by
  obtain ⟨k, rfl⟩ := Nat.exists_eq_add_of_lt hlt
  have hround : s.chain name m (k + 1) = some m := by
    rw [Nat.add_assoc, chain_add, hi] at hj
    exact hj
  have hrounds (r : Nat) : s.chain name m (r * (k + 1)) = some m := by
    induction r with
    | zero => simp [chain]
    | succ r ih => rw [Nat.succ_mul, chain_add, ih]; exact hround
  have hfar : s.chain name map (i + n * (k + 1)) = some m := by
    rw [chain_add, hi]
    exact hrounds n
  refine chain_isSome_of_le ?_ (by rw [hfar]; rfl)
  calc n ≤ n * (k + 1) := Nat.le_mul_of_pos_right n (Nat.succ_pos k)
    _ ≤ i + n * (k + 1) := Nat.le_add_left _ _

/-- The hooks that the maps of a chain have are of certain kinds. -/
def HooksAlong (s : State) (name : String) (map : Ref) (kinds : Kind → Prop) : Prop :=
  ∀ i m hook, s.chain name map i = some m → s.hook? m name = some hook → kinds (s.kind hook)

theorem HooksAlong.of_all {kinds : Kind → Prop}
    (h : ∀ index < s.heap.size, ∀ hook ∈ s.hook? ⟨index⟩ name, kinds (s.kind hook)) :
    s.HooksAlong name map kinds := by
  intro i m hook _ hhook
  by_cases hin : s.heap.Contains m
  · exact h m.index hin hook hhook
  · have hcells : s.cells m = [] := by
      have hkind : s.kind m = .singlet := by
        by_contra hkind
        exact hin (contains_of_kind_ne hkind)
      unfold kind at hkind
      unfold cells
      cases hm : s.payload m <;> simp [hm, Payload.kind] at hkind ⊢
    simp [hook?, named?, findNamed?, hcells] at hhook

theorem HooksAlong.heir {kinds : Kind → Prop} {heir : Ref} (h : s.HooksAlong name map kinds)
    (hheir : s.heir? name map = some heir) : s.HooksAlong name heir kinds := by
  intro i m hook hm
  refine h (i + 1) m hook ?_
  rw [chain, hheir]
  exact hm

variable {found : Ref → Option Ref} {other : Ref → Ref} {value m : Ref} {i n room : Nat}

/-- What is found along a chain with a number of delegations left: what the first map gives that gives
something, and another object where the chain ends before. None says that the delegations do not
suffice. -/
def along? (s : State) (name : String) (found : Ref → Option Ref) (other : Ref → Ref) (map : Ref)
    (room : Nat) : Option Ref :=
  match found map, s.heir? name map, room with
  | some value, _, _ => some value
  | none, none, _ => some (other map)
  | none, some _, 0 => none
  | none, some heir, room + 1 => s.along? name found other heir room

/-- Where nothing is found before a map, the search goes on from there. -/
theorem along?_eq (hm : s.chain name map i = some m)
    (hbefore : ∀ j < i, ∀ p ∈ s.chain name map j, found p = none) :
    s.along? name found other map (i + n) = s.along? name found other m n := by
  induction i generalizing map with
  | zero =>
    cases hm
    rw [Nat.zero_add]
  | succ i ih =>
    obtain ⟨heir, hheir, hm⟩ := Option.bind_eq_some_iff.mp hm
    have hfirst : found map = none := hbefore 0 (Nat.succ_pos i) map rfl
    have hrest : ∀ j < i, ∀ p ∈ s.chain name heir j, found p = none := by
      intro j hj p hp
      refine hbefore (j + 1) (Nat.succ_lt_succ hj) p ?_
      rw [chain, hheir]
      exact hp
    rw [Nat.succ_add]
    conv_lhs => unfold along?
    simp only [hfirst, hheir]
    exact ih hm hrest

theorem along?_of_found (hm : s.chain name map i = some m) (hfound : found m = some value)
    (hbefore : ∀ j < i, ∀ p ∈ s.chain name map j, found p = none) (hroom : i ≤ room) :
    s.along? name found other map room = some value := by
  obtain ⟨n, rfl⟩ := Nat.exists_eq_add_of_le hroom
  rw [along?_eq hm hbefore]
  simp [along?, hfound]

theorem along?_of_end (hm : s.chain name map i = some m) (hend : s.heir? name m = none)
    (hnone : ∀ j < i + 1, ∀ p ∈ s.chain name map j, found p = none) (hroom : i ≤ room) :
    s.along? name found other map room = some (other m) := by
  obtain ⟨n, rfl⟩ := Nat.exists_eq_add_of_le hroom
  have hlast : found m = none := hnone i (Nat.lt_succ_self i) m hm
  rw [along?_eq hm fun j hj => hnone j (Nat.lt_succ_of_lt hj)]
  simp [along?, hlast, hend]

theorem along?_of_long (hlong : (s.chain name map (room + 1)).isSome)
    (hnone : ∀ j < room + 1, ∀ p ∈ s.chain name map j, found p = none) :
    s.along? name found other map room = none := by
  obtain ⟨next, hnext⟩ := Option.isSome_iff_exists.mp hlong
  rw [chain_add] at hnext
  obtain ⟨m, hm, hnext⟩ := Option.bind_eq_some_iff.mp hnext
  obtain ⟨heir, hheir, -⟩ := Option.bind_eq_some_iff.mp hnext
  have hlast : found m = none := hnone room (Nat.lt_succ_self room) m hm
  have hsteps : s.along? name found other map (room + 0) = s.along? name found other m 0 :=
    along?_eq hm fun j hj => hnone j (Nat.lt_succ_of_lt hj)
  rw [Nat.add_zero] at hsteps
  rw [hsteps]
  simp [along?, hlast, hheir]

end State

-- ---------------------------------------------------------------------------
-- Lookups
-- ---------------------------------------------------------------------------

namespace State

/-- What a lookup of a plain key finds with a number of delegations left. -/
def delegatedValue? (s : State) (key map : Ref) (room : Nat) : Option Ref :=
  s.along? "__index" (s.lookup? · key) (fun _ => s.nothing) map room

/-- The first maps of a chain do not have a key. -/
def Lacking (s : State) (key map : Ref) (count : Nat) : Prop :=
  ∀ i < count, ∀ m ∈ s.chain "__index" map i, s.lookup? m key = none

instance (s : State) (key map : Ref) (count : Nat) : Decidable (s.Lacking key map count) :=
  inferInstanceAs (Decidable (∀ i < count, ∀ m ∈ s.chain "__index" map i, s.lookup? m key = none))

end State

theorem ends_delegatedIndex (host : Host) {s₀ s : State} {map key : Ref} {rounds : Nat}
    (hclosed : s₀.Closed) (hkey : s₀.PlainKey key) (hmap : s₀.kind map = .map)
    (hmaps : s₀.HooksAlong "__index" map (· = .map)) (hlike : s₀.Like s)
    (hrounds : s.room + 3 ≤ rounds) : ((machine host rounds).index map key).Ends s
      (fun value t => s₀.delegatedValue? key map s.room = some value ∧ s.Grown t s.shown)
      fun t => s₀.delegatedValue? key map s.room = none ∧ s.Raised (.depth s.limits.depth) t := by
  -- Each map of the chain takes a round; two more are there to match its keys.
  induction rounds generalizing s map with
  | zero => omega
  | succ rounds ih =>
    obtain ⟨spare, rfl⟩ : ∃ spare, rounds = spare + 2 := ⟨rounds - 2, by omega⟩
    have hin : s₀.heap.Contains map := State.contains_of_kind_ne (by simp [hmap])
    have hheld : s₀.Like (s.withHeld ([map, key] :: s.held)) := hlike.withHeld _
    rw [Dispatcher.index, ends_binary host _ ((hlike.kind_eq hin).trans hmap) rfl]
    simp only [Behavior.Maps.index, ends_bind, ends_argument_first, ends_argument_second]
    refine (Map.ends_get? host spare (hclosed.madeCells map) hin hkey hheld).imp_sure ?_
    rintro _ t ⟨rfl, hgrown⟩
    have hthen := hheld.grown hgrown
    unfold State.delegatedValue? State.along?
    cases hlookup : s₀.lookup? map key with
    | some value => exact ⟨rfl, hgrown.unheld⟩
    | none =>
      simp only [ends_bind, Map.ends_hook?, hthen.hook?_eq hclosed hin]
      cases hhook : s₀.hook? map "__index" with
      | none =>
        have hheir : s₀.heir? "__index" map = none := by simp [State.heir?, hhook]
        exact ⟨by simp [hheir, hthen.nothing], hgrown.unheld⟩
      | some hook =>
        have hkind : s₀.kind hook = .map := hmaps 0 map hook rfl hhook
        have hheir : s₀.heir? "__index" map = some hook := by simp [State.heir?, hhook, hkind]
        have hanswers : Kind.map.answers .index = true := by decide
        have hroom : t.room = s.room := hgrown.room
        have hlimits : t.limits = s.limits := hgrown.limits
        simp only [ends_bind, ends_kind, ends_holding, hheir, reduceCtorEq, or_self, if_false,
          hthen.kind_eq (hclosed.made_hook hhook), hkind, hanswers, if_true, ends_delegated,
          State.room_withHeld, State.limits_withHeld, hroom, hlimits, State.withHeld_withHeld]
        refine ⟨fun hfull => ?_, fun hfree => ?_⟩
        · rw [hfull]
          exact ⟨rfl, (State.Grown.thenRaised hgrown (State.raised_faulting _ _).unheld).unheld⟩
        · obtain ⟨left, hleft⟩ : ∃ left, s.room = left + 1 := Nat.exists_eq_succ_of_ne_zero hfree
          have hdeeper : (t.withHeld ([map, key, hook] :: t.held)).deeper.room = left := by
            simp [hroom, hleft]
          have hrun := ih hkind (hmaps.heir hheir)
            (hthen.withHeld ([map, key, hook] :: t.held)).deeper (by omega)
          rw [hdeeper, State.limits_deeper, State.limits_withHeld, hlimits] at hrun
          rw [hleft]
          refine hrun.imp ?_ ?_
          · rintro value u ⟨hvalue, hdeep⟩
            exact ⟨hvalue, (State.Grown.thenGrown hgrown hdeep.undelegated.unheld).unheld⟩
          · rintro u ⟨hvalue, hraised⟩
            exact ⟨hvalue, (State.Grown.thenRaised hgrown hraised.undelegated.unheld).unheld⟩

/-- A lookup of a name or an int along maps that delegate to maps comes to an end and changes none of
them. It gives what the first map with the key stores, or no value where the chain ends before, if no
more delegations are needed than fit, and otherwise raises the error of the recursion limit. -/
theorem index_delegated (host : Host) (rounds : Nat) (s : State) (map key : Ref)
    (hclosed : s.Closed) (hmap : s.kind map = .map) (hkey : s.PlainKey key)
    (hmaps : s.HooksAlong "__index" map (· = .map)) (hrounds : s.room + 3 ≤ rounds) :
    ((machine host rounds).index map key).Ends s (fun _ t => s.Grown t s.shown)
      (s.Raised (.depth s.limits.depth)) ∧
    (∀ i m value, i ≤ s.room → s.chain "__index" map i = some m → s.lookup? m key = some value →
      s.Lacking key map i → ((machine host rounds).index map key).Ends s
        (fun answer t => answer = value ∧ s.Grown t s.shown) fun _ => False) ∧
    (∀ i m, i ≤ s.room → s.chain "__index" map i = some m → s.heir? "__index" m = none →
      s.Lacking key map (i + 1) → ((machine host rounds).index map key).Ends s
        (fun answer t => answer = s.nothing ∧ s.Grown t s.shown) fun _ => False) ∧
    ((s.chain "__index" map (s.room + 1)).isSome → s.Lacking key map (s.room + 1) →
      ((machine host rounds).index map key).Ends s (fun _ _ => False)
        (s.Raised (.depth s.limits.depth))) := by
  have hrun := ends_delegatedIndex host hclosed hkey hmap hmaps (.refl s) hrounds
  have hfound {value : Ref} (hvalue : s.delegatedValue? key map s.room = some value) :
      ((machine host rounds).index map key).Ends s
        (fun answer t => answer = value ∧ s.Grown t s.shown) fun _ => False := by
    refine hrun.imp (fun answer t h => ?_) fun t h => ?_
    · exact ⟨Option.some.inj (h.1.symm.trans hvalue), h.2⟩
    · cases h.1.symm.trans hvalue
  refine ⟨hrun.imp (fun _ _ h => h.2) fun _ h => h.2, ?_, ?_, ?_⟩
  · intro i m value hroom hm hvalue hlacking
    exact hfound (State.along?_of_found hm hvalue hlacking hroom)
  · intro i m hroom hm hend hlacking
    exact hfound (State.along?_of_end hm hend hlacking hroom)
  · intro hlong hlacking
    have hnone : s.delegatedValue? key map s.room = none := State.along?_of_long hlong hlacking
    refine hrun.imp (fun answer t h => ?_) fun t h => h.2
    cases hnone.symm.trans h.1

/-- Three maps that delegate in a circle, the last of which has a name with no value, where two
delegations still fit. -/
theorem index_delegated_circle :
    let s := { Globals.bare { depth := 3 } .discard {} with
      delegations := 1
      heap := ⟨#[.singlet "None", .map [], .map [], .map [⟨6⟩], .map [⟨7⟩], .map [⟨8⟩, ⟨9⟩],
        .cell ⟨10⟩ ⟨4⟩, .cell ⟨10⟩ ⟨5⟩, .cell ⟨10⟩ ⟨3⟩, .cell ⟨11⟩ ⟨0⟩, .string "__index", .string "k",
        .int 7]⟩ }
    s.Closed ∧ s.kind ⟨3⟩ = .map ∧ s.PlainKey ⟨11⟩ ∧ s.PlainKey ⟨12⟩ ∧
    s.HooksAlong "__index" ⟨3⟩ (· = .map) ∧ s.room + 3 ≤ 5 ∧
    ((machine {} 5).index ⟨3⟩ ⟨11⟩).Ends s (fun answer t => answer = s.nothing ∧ s.Grown t s.shown)
      (fun _ => False) ∧
    ((machine {} 5).index ⟨3⟩ ⟨12⟩).Ends s (fun _ _ => False) (s.Raised (.depth 3)) := by
  intro s
  have hclosed : s.Closed := by decide
  have hname : s.PlainKey ⟨11⟩ := by decide
  have hint : s.PlainKey ⟨12⟩ := by decide
  have hmaps : s.HooksAlong "__index" ⟨3⟩ (· = .map) := .of_all (by decide +kernel)
  have hroom : s.room + 3 ≤ 5 := by decide
  have hthird : s.chain "__index" ⟨3⟩ 2 = some ⟨5⟩ := by decide +kernel
  have hstored : s.lookup? ⟨5⟩ ⟨11⟩ = some s.nothing := by decide +kernel
  have hlacking : s.Lacking ⟨11⟩ ⟨3⟩ 2 := by decide +kernel
  have hlong : (s.chain "__index" ⟨3⟩ (s.room + 1)).isSome := by decide +kernel
  have hlackingInt : s.Lacking ⟨12⟩ ⟨3⟩ (s.room + 1) := by decide +kernel
  have hmap : s.kind ⟨3⟩ = .map := rfl
  have hsome : 2 ≤ s.room := by decide
  have hlimit : s.limits.depth = 3 := rfl
  clear_value s
  obtain ⟨-, hfound, -⟩ := index_delegated {} 5 s ⟨3⟩ ⟨11⟩ hclosed hmap hname hmaps hroom
  obtain ⟨-, -, -, hraised⟩ := index_delegated {} 5 s ⟨3⟩ ⟨12⟩ hclosed hmap hint hmaps hroom
  exact ⟨hclosed, hmap, hname, hint, hmaps, hroom, hfound 2 ⟨5⟩ s.nothing hsome hthird hstored hlacking,
    hlimit ▸ hraised hlong hlackingInt⟩

-- ---------------------------------------------------------------------------
-- Stores
-- ---------------------------------------------------------------------------

/-- The map that a store lands in with a number of delegations left. -/
def State.storeTarget? (s : State) (map : Ref) (room : Nat) : Option Ref :=
  s.along? "__setindex" (fun _ => none) id map room

/-- What a map's store hook may be for its stores to land in a map: a map, or an object that stores
nothing itself and is not called either. -/
def Kind.Receives (kind : Kind) : Prop :=
  kind = .map ∨ kind.answers .setIndex = false ∧ kind ≠ .native

instance (kind : Kind) : Decidable kind.Receives :=
  inferInstanceAs (Decidable (kind = .map ∨ kind.answers .setIndex = false ∧ kind ≠ .native))

theorem Kind.not_map_or_function {kind : Kind} (h : kind.answers .setIndex = false) :
    kind ≠ .map ∧ kind ≠ .function := by
  constructor <;> rintro rfl <;> exact absurd h (by decide)

theorem ends_delegatedStore (host : Host) {s₀ s : State} {map key : Ref} (value : Ref) {rounds : Nat}
    (hclosed : s₀.Closed) (hkey : s₀.PlainKey key) (hmap : s₀.kind map = .map)
    (hhooks : s₀.HooksAlong "__setindex" map Kind.Receives) (hlike : s₀.Like s)
    (hheap : s.heap = s₀.heap) (hrounds : s.room + 3 ≤ rounds) :
    ((machine host rounds).setIndex map key value).Ends s
      (fun _ t => ∃ m, s₀.storeTarget? map s.room = some m ∧ s.Stores m key value t)
      fun t => s₀.storeTarget? map s.room = none ∧ s.Raised (.depth s.limits.depth) t := by
  induction rounds generalizing s map with
  | zero => omega
  | succ rounds ih =>
    obtain ⟨spare, rfl⟩ : ∃ spare, rounds = spare + 2 := ⟨rounds - 2, by omega⟩
    have hin : s₀.heap.Contains map := State.contains_of_kind_ne (by simp [hmap])
    have hheld : s₀.Like (s.withHeld ([map, key, value] :: s.held)) := hlike.withHeld _
    have hset (held : List (List Ref)) : (Map.set (machine host (spare + 2)).toDispatcher map key
        value).Ends (s.withHeld held) (fun _ t => (s.withHeld held).Stores map key value t)
        fun _ => False :=
      Map.ends_set host spare (s := s.withHeld held) ((hclosed.of_heap hheap).madeCells map)
        ((hlike.kind_eq hin).trans hmap) (hlike.plainKey hkey) value
    rw [ends_setIndex host _ ((hlike.kind_eq hin).trans hmap) rfl]
    simp only [Behavior.Maps.setIndex, ends_bind, ends_argument_first, ends_argument_second,
      ends_argument_third, Map.ends_hook?, hheld.hook?_eq hclosed hin]
    unfold State.storeTarget? State.along?
    cases hhook : s₀.hook? map "__setindex" with
    | none =>
      have hheir : s₀.heir? "__setindex" map = none := by simp [State.heir?, hhook]
      simp only [hheir, ends_bind, ends_nothing]
      exact (hset _).imp_sure fun _ t h => ⟨map, rfl, h.unheld⟩
    | some hook =>
      have hkind : s.kind hook = s₀.kind hook := hlike.kind_eq (hclosed.made_hook hhook)
      simp only [ends_bind, ends_kind, ends_holding, ends_nothing, State.kind_withHeld, hkind,
        State.withHeld_withHeld, State.held_withHeld]
      rcases hhooks 0 map hook rfl hhook with hmapHook | ⟨hstores, hnative⟩
      · have hheir : s₀.heir? "__setindex" map = some hook := by simp [State.heir?, hhook, hmapHook]
        have hanswers : Kind.map.answers .setIndex = true := by decide
        simp only [hheir, hmapHook, hanswers, reduceCtorEq, or_self, if_false, if_true,
          ends_delegated, State.room_withHeld, State.limits_withHeld]
        refine ⟨fun hfull => ?_, fun hfree => ?_⟩
        · rw [hfull]
          exact ⟨rfl, (State.raised_faulting _ _).unheld⟩
        · obtain ⟨left, hleft⟩ : ∃ left, s.room = left + 1 := Nat.exists_eq_succ_of_ne_zero hfree
          have hrun := ih hmapHook (hhooks.heir hheir)
            (hlike.withHeld ([map, key, value, hook] :: [map, key, value] :: s.held)).deeper hheap
          rw [State.room_deeper, State.room_withHeld, hleft, Nat.add_sub_cancel] at hrun
          rw [hleft]
          refine (hrun (by omega)).imp ?_ ?_
          · rintro _ t ⟨m, hm, hstored⟩
            exact ⟨m, hm, hstored.undelegated.unheld⟩
          · rintro t ⟨hm, hraised⟩
            exact ⟨hm, hraised.undelegated.unheld⟩
      -- A hook that stores nothing is passed over, and the map keeps the value itself.
      · obtain ⟨hother, hfunction⟩ := Kind.not_map_or_function hstores
        have hheir : s₀.heir? "__setindex" map = none := by simp [State.heir?, hhook, hother]
        simp only [hheir, hstores, hfunction, hnative, or_self, if_false, Bool.false_eq_true]
        exact (hset _).imp_sure fun _ t h => ⟨map, rfl, h.unheld⟩

/-- A store of a name or an int along maps that delegate to maps is one store in the map that the chain
ends at, if no more delegations are needed than fit. It raises the error of the recursion limit, and
changes no map, if more are needed or the chain comes back to a map it was at. -/
theorem setIndex_delegated (host : Host) (rounds : Nat) (s : State) (map key value : Ref)
    (hclosed : s.Closed) (hmap : s.kind map = .map) (hkey : s.PlainKey key)
    (hhooks : s.HooksAlong "__setindex" map Kind.Receives) (hrounds : s.room + 3 ≤ rounds) :
    (∀ n m, n ≤ s.room → s.chain "__setindex" map n = some m → s.heir? "__setindex" m = none →
      ((machine host rounds).setIndex map key value).Ends s
        (fun _ t => s.Stores m key value t) fun _ => False) ∧
    ((s.chain "__setindex" map (s.room + 1)).isSome ∨
        (∃ i j m, i < j ∧ s.chain "__setindex" map i = some m ∧ s.chain "__setindex" map j = some m) →
      ((machine host rounds).setIndex map key value).Ends s (fun _ _ => False)
        (s.Raised (.depth s.limits.depth))) := by
  have hrun := ends_delegatedStore host value hclosed hkey hmap hhooks (.refl s) rfl hrounds
  refine ⟨fun n m hroom hm hend => ?_, fun hlong => ?_⟩
  · have htarget : s.storeTarget? map s.room = some m :=
      State.along?_of_end hm hend (fun _ _ _ _ => rfl) hroom
    refine hrun.imp ?_ ?_
    · rintro _ t ⟨other, hother, hstored⟩
      cases htarget.symm.trans hother
      exact hstored
    · rintro t ⟨hnone, -⟩
      cases htarget.symm.trans hnone
  · have hlong : (s.chain "__setindex" map (s.room + 1)).isSome := by
      rcases hlong with hlong | ⟨i, j, m, hlt, hi, hj⟩
      · exact hlong
      · exact State.chain_of_cycle hlt hi hj _
    have htarget : s.storeTarget? map s.room = none :=
      State.along?_of_long hlong fun _ _ _ _ => rfl
    refine hrun.imp ?_ fun t h => h.2
    rintro _ t ⟨other, hother, -⟩
    cases htarget.symm.trans hother

/-- A map with a name delegates to another, whose own hook is an int, and a third one to itself, where
one delegation fits. -/
theorem setIndex_delegated_once :
    let s := { Globals.bare { depth := 1 } .discard {} with
      heap := ⟨#[.singlet "None", .map [], .map [], .map [⟨6⟩, ⟨7⟩], .map [⟨8⟩], .map [⟨9⟩],
        .cell ⟨10⟩ ⟨4⟩, .cell ⟨11⟩ ⟨0⟩, .cell ⟨10⟩ ⟨12⟩, .cell ⟨10⟩ ⟨5⟩, .string "__setindex", .string "k",
        .int 7]⟩ }
    s.Closed ∧ s.kind ⟨3⟩ = .map ∧ s.kind ⟨5⟩ = .map ∧ s.PlainKey ⟨11⟩ ∧
    s.HooksAlong "__setindex" ⟨3⟩ Kind.Receives ∧ s.HooksAlong "__setindex" ⟨5⟩ Kind.Receives ∧
    s.room + 3 ≤ 4 ∧ (s.lookup? ⟨3⟩ ⟨11⟩).isSome ∧
    ((machine {} 4).setIndex ⟨3⟩ ⟨11⟩ ⟨12⟩).Ends s (fun _ t => s.Stores ⟨4⟩ ⟨11⟩ ⟨12⟩ t)
      (fun _ => False) ∧
    ((machine {} 4).setIndex ⟨5⟩ ⟨11⟩ ⟨12⟩).Ends s (fun _ _ => False) (s.Raised (.depth 1)) := by
  intro s
  have hclosed : s.Closed := by decide
  have hmap : s.kind ⟨3⟩ = .map := rfl
  have hself : s.kind ⟨5⟩ = .map := rfl
  have hkey : s.PlainKey ⟨11⟩ := by decide
  have hhooks (map : Ref) : s.HooksAlong "__setindex" map Kind.Receives := .of_all (by decide +kernel)
  have hroom : s.room + 3 ≤ 4 := by decide
  have hheld : (s.lookup? ⟨3⟩ ⟨11⟩).isSome := by decide +kernel
  have hsome : 1 ≤ s.room := by decide
  have hlimit : s.limits.depth = 1 := rfl
  have hsecond : s.chain "__setindex" ⟨3⟩ 1 = some ⟨4⟩ := by decide +kernel
  have hend : s.heir? "__setindex" ⟨4⟩ = none := by decide +kernel
  have hback : s.chain "__setindex" ⟨5⟩ 1 = some ⟨5⟩ := by decide +kernel
  clear_value s
  obtain ⟨hstored, -⟩ := setIndex_delegated {} 4 s ⟨3⟩ ⟨11⟩ ⟨12⟩ hclosed hmap hkey (hhooks _) hroom
  obtain ⟨-, hraised⟩ := setIndex_delegated {} 4 s ⟨5⟩ ⟨11⟩ ⟨12⟩ hclosed hself hkey (hhooks _) hroom
  exact ⟨hclosed, hmap, hself, hkey, hhooks _, hhooks _, hroom, hheld, hstored 1 ⟨4⟩ hsome hsecond hend,
    hlimit ▸ hraised (.inr ⟨0, 1, ⟨5⟩, Nat.zero_lt_one, rfl, hback⟩)⟩

/-- A native function stores nothing itself, but as the hook of a map it is called in place of a store. -/
theorem setIndex_called : ¬ ∀ (host : Host) (rounds : Nat) (s : State) (map key value : Ref),
    s.Closed → s.kind map = .map → s.PlainKey key →
    s.HooksAlong "__setindex" map (fun kind => kind = .map ∨ kind.answers .setIndex = false) →
    s.room + 3 ≤ rounds → ∀ n m, n ≤ s.room → s.chain "__setindex" map n = some m →
      s.heir? "__setindex" m = none → ((machine host rounds).setIndex map key value).Ends s
        (fun _ t => s.Stores m key value t) fun _ => False := by
  intro hclaim
  let s := { Globals.bare { depth := 1 } .discard {} with
    heap := ⟨#[.singlet "None", .map [], .map [], .map [⟨4⟩], .cell ⟨5⟩ ⟨6⟩, .string "__setindex",
      .native (.host "ignore"), .string "k"]⟩ }
  have hends := hclaim {} 4 s ⟨3⟩ ⟨7⟩ ⟨0⟩ (by decide) rfl (by decide) (.of_all (by decide +kernel))
    (by decide) 0 ⟨3⟩ (Nat.zero_le _) rfl (by decide +kernel)
  have hrun : ((machine {} 4).setIndex ⟨3⟩ ⟨7⟩ ⟨0⟩).run s = .ok () s := rfl
  obtain ⟨cell, -, -, hcells⟩ := ((ends_of_run hrun).mp hends).appended (by decide +kernel)
  cases hcells

end ObjectModel
