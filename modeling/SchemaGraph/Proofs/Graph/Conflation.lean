import Mathlib
import SchemaGraph.Proofs.Graph.Bisimilarity
import SchemaGraph.Proofs.Graph.Permutation
/-!
# Proofs.Graph.Conflation -- shapes up to the kinds of numbers

With integers and doubles counted as one kind, a member of a union may find its counterpart under the
other kind of number. Only the members of the union with the smaller number look for one. So a union
that has both kinds of numbers finds counterparts for both in a union that has one of them, and if it
is as long as the other, the other has a member that nothing asks for; the other way round that member
finds nothing. One layer of such a comparison is `Graph.Covers`, and it has a direction.

Two relations have none. The strict one (`Graph.AlikeUpToNumbers`) asks for both directions at every
pair, the loose one (`Graph.LooselyAlike`) for either of them. What a comparison decides lies between
the two (`Graph.sameShape_of_alikeUpToNumbers`, `Graph.looselyAlike_of_sameShape`). They are the same
when the loose one keeps unions with both kinds of numbers apart from unions without
(`Graph.NumbersKeepApart`), and otherwise some numbering of the nodes makes the comparison see the
difference. So the comparison is an equivalence that does not depend on the numbers of nodes exactly
for graphs whose numbers keep apart (`Graph.respects_shape_iff_numbersKeepApart`).
-/

namespace SchemaGraph

set_option autoImplicit false

/-- The kind, integers counted as doubles. -/
def Kind.folded : Kind → Kind
  | .integer => .double
  | kind => kind

theorem Kind.isNumber_iff {kind : Kind} : kind.isNumber = true ↔ kind = .integer ∨ kind = .double := by
  cases kind <;> decide

theorem Kind.folded_eq_double_iff {kind : Kind} : kind.folded = .double ↔ kind.isNumber = true := by
  cases kind <;> decide

theorem Kind.folded_eq_folded_iff {j k : Kind} :
    j.folded = k.folded ↔ j = k ∨ (j.isNumber = true ∧ k.isNumber = true) := by
  cases j <;> cases k <;> decide

theorem kindsAgree_true_iff {j k : Kind} : kindsAgree true j k = true ↔ j.folded = k.folded := by
  rw [Kind.folded_eq_folded_iff]
  simp [kindsAgree]

/-- A type of a kind of number is that number. -/
theorem Ty.eq_primitive_of_isNumber {type : Ty} (number : type.kind.isNumber = true) :
    ∃ p, type = .primitive p := by
  cases type with
  | primitive p => exact ⟨p, rfl⟩
  | _ => cases number

/-- Agreeing in two steps is agreeing. -/
theorem Ty.Agrees.trans {kind? : Ref → Option Kind} {first second : Ref → Ref → Prop} {s t u : Ty}
    (one : s.Agrees kind? first t) (two : t.Agrees kind? second u) :
    s.Agrees kind? (fun x z => ∃ y, first x y ∧ second y z) u := by
  by_cases isUnion : t.kind = .union
  · obtain ⟨m, rfl⟩ := Ty.exists_union_of_kind isUnion
    obtain ⟨l, rfl⟩ := Ty.exists_union_of_kind one.kind_eq
    obtain ⟨r, rfl⟩ := Ty.exists_union_of_kind two.kind_eq.symm
    obtain ⟨size, members⟩ := Ty.agrees_union_iff.1 one
    obtain ⟨laterSize, laterMembers⟩ := Ty.agrees_union_iff.1 two
    refine .union (size.trans laterSize) fun x inL => ?_
    obtain ⟨y, inM, same, related⟩ := members x inL
    obtain ⟨z, inR, laterSame, laterRelated⟩ := laterMembers y inM
    exact ⟨z, inR, same.trans laterSame, y, related, laterRelated⟩
  · have plain : s.kind ≠ .union := fun same => isUnion (one.kind_eq.symm.trans same)
    rw [Ty.agrees_iff_alike plain] at one ⊢
    rw [Ty.agrees_iff_alike isUnion] at two
    exact one.trans two

/-- Types that agree agree at their images. -/
theorem Ty.Agrees.image {kind? kind?' : Ref → Option Kind} {rel rel' : Ref → Ref → Prop}
    {f : Ref → Ref} (injective : Function.Injective f) (kinds : ∀ r, kind?' (f r) = kind? r)
    (moved : ∀ x y, rel x y → rel' (f x) (f y)) {s t : Ty} (agrees : s.Agrees kind? rel t) :
    (s.mapRefs f).Agrees kind?' rel' (t.mapRefs f) := by
  cases agrees with
  | primitive => exact .primitive
  | array items => exact .array (moved _ _ items)
  | map values => exact .map (moved _ _ values)
  | enum cases => exact .enum cases
  | @union l r size members =>
    have length : ∀ set : OrderedSet Ref, (set.map f).size = set.size := by
      intro set
      simp [OrderedSet.size, OrderedSet.toList_map fun a _ b _ same => injective same]
    refine .union (by rw [length, length, size]) ?_
    intro m inL
    obtain ⟨old, listed, rfl⟩ := OrderedSet.mem_map.1 inL
    obtain ⟨n, inR, same, related⟩ := members old listed
    refine ⟨f n, OrderedSet.mem_map.2 ⟨n, inR, rfl⟩, ?_, moved _ _ related⟩
    rw [kinds, kinds, same]
  | @record l r names types =>
    refine .record (fun name => ?_) ?_
    · show name ∈ (l.relocate f).properties.keys ↔ name ∈ (r.relocate f).properties.keys
      rw [Record.keys_relocate, Record.keys_relocate, names]
    · intro name p q foundP foundQ
      obtain ⟨old, before, rfl⟩ := Option.map_eq_some_iff.1 ((l.property?_relocate f name).symm.trans foundP)
      obtain ⟨other, there, rfl⟩ := Option.map_eq_some_iff.1 ((r.property?_relocate f name).symm.trans foundQ)
      exact (types name old other before there).imp_right (moved _ _)

namespace Graph

/-! ## One layer, with a direction -/

section Layer

variable (g : Graph)

/-- The kind of a type, integers counted as doubles. -/
def foldedKind? (r : Ref) : Option Kind := (g.kind? r).map Kind.folded

/-- The reference designates an integer or a double. -/
def IsNumber (r : Ref) : Prop := g.foldedKind? r = some .double

/-- A union with an integer and a double among its members. -/
def MixesNumbers (r : Ref) : Prop :=
  ∃ m ∈ g.members r, ∃ n ∈ g.members r, g.kind? m = some .integer ∧ g.kind? n = some .double

instance (r : Ref) : Decidable (g.MixesNumbers r) :=
  inferInstanceAs (Decidable (∃ m ∈ g.members r, ∃ n ∈ g.members r, _))

/-- Both types are numbers, or they agree up to the kinds of numbers: every constituent of the first has
a counterpart in the second. -/
def Covers (rel : Ref → Ref → Prop) (a b : Ref) : Prop :=
  (g.IsNumber a ∧ g.IsNumber b) ∨
    ∃ s t, g.type? a = some s ∧ g.type? b = some t ∧ s.Agrees g.foldedKind? rel t

end Layer

variable {g : Graph} {rel : Ref → Ref → Prop} {a b : Ref}

theorem foldedKind?_of_type? {r : Ref} {type : Ty} (found : g.type? r = some type) :
    g.foldedKind? r = some type.kind.folded := by
  rw [foldedKind?, g.kind?_of_type? found, Option.map_some]

theorem IsNumber.exists_primitive {r : Ref} (number : g.IsNumber r) :
    ∃ p, g.type? r = some (.primitive p) ∧ p.kind.isNumber = true := by
  obtain ⟨kind, found, folded⟩ := Option.map_eq_some_iff.1 number
  obtain ⟨type, there, rfl⟩ := g.exists_type?_of_kind? found
  have isNumber := Kind.folded_eq_double_iff.1 folded
  obtain ⟨p, rfl⟩ := Ty.eq_primitive_of_isNumber isNumber
  exact ⟨p, there, isNumber⟩

theorem IsNumber.kind?_eq {r : Ref} (number : g.IsNumber r) :
    g.kind? r = some .integer ∨ g.kind? r = some .double := by
  obtain ⟨kind, found, folded⟩ := Option.map_eq_some_iff.1 number
  rw [found]
  exact (Kind.isNumber_iff.1 (Kind.folded_eq_double_iff.1 folded)).imp (congrArg some) (congrArg some)

/-- Kinds that are one kind when numbers are counted as one are equal, or kinds of numbers. -/
theorem kind?_eq_or_isNumber {m n : Ref} (same : g.foldedKind? m = g.foldedKind? n) :
    g.kind? m = g.kind? n ∨ (g.IsNumber m ∧ g.IsNumber n) := by
  unfold IsNumber foldedKind? at *
  cases kindM : g.kind? m with
  | none =>
    rw [kindM, Option.map_none, eq_comm, Option.map_eq_none_iff] at same
    exact .inl same.symm
  | some j =>
    cases kindN : g.kind? n with
    | none => simp [kindM, kindN] at same
    | some k =>
      simp only [kindM, kindN, Option.map_some, Option.some.injEq] at same ⊢
      simpa [Kind.folded_eq_double_iff] using Kind.folded_eq_folded_iff.1 same

theorem Covers.mono {wider : Ref → Ref → Prop} (widen : ∀ x y, rel x y → wider x y)
    (covers : g.Covers rel a b) : g.Covers wider a b := by
  refine covers.imp_right ?_
  rintro ⟨s, t, left, right, agrees⟩
  exact ⟨s, t, left, right, agrees.mono widen⟩

theorem Covers.trans {later : Ref → Ref → Prop} {c : Ref} (one : g.Covers rel a b)
    (two : g.Covers later b c) : g.Covers (fun x z => ∃ y, rel x y ∧ later y z) a c := by
  rcases one with ⟨numberA, numberB⟩ | ⟨s, t, left, middle, agrees⟩
  · rcases two with ⟨_, numberC⟩ | ⟨s, t, left, right, agrees⟩
    · exact .inl ⟨numberA, numberC⟩
    · rw [IsNumber, foldedKind?_of_type? left, agrees.kind_eq, ← foldedKind?_of_type? right] at numberB
      exact .inl ⟨numberA, numberB⟩
  · rcases two with ⟨numberB, numberC⟩ | ⟨t', u, middle', right, agrees'⟩
    · rw [IsNumber, foldedKind?_of_type? middle, ← agrees.kind_eq, ← foldedKind?_of_type? left] at numberB
      exact .inl ⟨numberB, numberC⟩
    · cases middle.symm.trans middle'
      exact .inr ⟨s, u, left, right, agrees.trans agrees'⟩

/-! ### Counterparts -/

theorem foldedKind?_of_counterpart? {refs : List Ref} {kind : Kind} {r : Ref}
    (found : g.counterpart? true refs kind = some r) :
    r ∈ refs ∧ g.foldedKind? r = some kind.folded := by
  have last : ∀ {other}, g.lastOfKind? other refs = some r → other.folded = kind.folded →
      r ∈ refs ∧ g.foldedKind? r = some kind.folded := by
    intro other found same
    obtain ⟨listed, kindR⟩ := g.mem_of_lastOfKind? found
    exact ⟨listed, by rw [foldedKind?, kindR, Option.map_some, same]⟩
  unfold counterpart? at found
  split at found
  · rename_i found'
    cases found
    exact last found' rfl
  · cases kind with
    | integer => exact last found rfl
    | double => exact last found rfl
    | _ => cases found

theorem exists_counterpart? {refs : List Ref} {kind : Kind} {n : Ref} (listed : n ∈ refs)
    (folded : g.foldedKind? n = some kind.folded) : ∃ r, g.counterpart? true refs kind = some r := by
  unfold counterpart?
  cases same : g.lastOfKind? kind refs with
  | some r => exact ⟨r, rfl⟩
  | none =>
    obtain ⟨other, kindN, equal⟩ := Option.map_eq_some_iff.1 folded
    have apart : other ≠ kind := by
      rintro rfl
      obtain ⟨r, found⟩ := g.exists_lastOfKind? listed kindN
      rw [found] at same
      cases same
    -- what has another kind and the same folded one is the other kind of number
    obtain ⟨r, found⟩ := g.exists_lastOfKind? listed kindN
    refine ⟨r, ?_⟩
    obtain ⟨numberN, number⟩ := (Kind.folded_eq_folded_iff.1 equal).resolve_left apart
    rw [Kind.isNumber_iff] at numberN number
    rcases numberN with rfl | rfl
    · rcases number with rfl | rfl
      · exact absurd rfl apart
      · exact found
    · rcases number with rfl | rfl
      · exact found
      · exact absurd rfl apart

/-- The relation holds of any two numbers. -/
def HoldsOfNumbers (g : Graph) (rel : Ref → Ref → Prop) : Prop :=
  ∀ x y, g.IsNumber x → g.IsNumber y → rel x y

/-- Members of two unions find counterparts when the second has types of their folded kinds: which of two
numbers it is does not matter. -/
theorem pairs_of_folded_union_iff {l r : OrderedSet Ref} (left : g.type? a = some (.union l))
    (right : g.type? b = some (.union r)) (numbers : g.HoldsOfNumbers rel) :
    (∃ new, g.constituentPairs? true (.union l) (.union r) = some new ∧
      ∀ pair ∈ new, rel pair.1 pair.2) ↔ (Ty.union l).Agrees g.foldedKind? rel (.union r) := by
  have member : ∀ m pair, g.memberPair? true r.toList m = some pair →
      pair.1 = m ∧ pair.2 ∈ r ∧ g.foldedKind? m = g.foldedKind? pair.2 := by
    intro m pair found
    obtain ⟨kind, kindM, found⟩ := Option.bind_eq_some_iff.1 found
    obtain ⟨n, other, found⟩ := Option.bind_eq_some_iff.1 found
    cases found
    obtain ⟨listed, folded⟩ := foldedKind?_of_counterpart? other
    refine ⟨rfl, listed, ?_⟩
    rw [folded, foldedKind?, kindM, Option.map_some]
  rw [Ty.agrees_union_iff]
  constructor
  · rintro ⟨new, pairs, holds⟩
    simp only [constituentPairs?] at pairs
    split at pairs
    · rename_i size
      refine ⟨size, fun m inL => ?_⟩
      obtain ⟨pair, listed, found⟩ := exists_of_mem_left (mapM_eq_some_iff.1 pairs) inL
      obtain ⟨first, inR, same⟩ := member m pair found
      exact ⟨pair.2, inR, same, first ▸ holds pair listed⟩
    · cases pairs
  · rintro ⟨size, members⟩
    have each : ∀ m ∈ l.toList, ∃ pair, g.memberPair? true r.toList m = some pair := by
      intro m inL
      obtain ⟨kind, kindM⟩ := g.isSome_kind?_of_mem left inL
      obtain ⟨n, inR, same, _⟩ := members m inL
      rw [foldedKind?, kindM, Option.map_some] at same
      obtain ⟨other, found⟩ := exists_counterpart? inR same.symm
      exact ⟨(m, other), by simp [memberPair?, kindM, found]⟩
    obtain ⟨new, pairs⟩ := exists_mapM_eq_some each
    refine ⟨new, ?_, ?_⟩
    · simp only [constituentPairs?, if_pos size]
      exact pairs
    · intro pair listed
      obtain ⟨m, inL, found⟩ := exists_of_mem_right (mapM_eq_some_iff.1 pairs) listed
      obtain ⟨first, inR, same⟩ := member m pair found
      obtain ⟨n, inR', same', related⟩ := members m inL
      rw [first]
      rcases kind?_eq_or_isNumber (same.symm.trans same') with equal | ⟨number, number'⟩
      · rw [g.eq_of_kind?_eq right inR inR' equal]
        exact related
      · refine numbers m pair.2 ?_ number
        rw [IsNumber, same]
        exact number

/-- Two references cover what they owe each other. -/
theorem owes_iff_covers (numbers : g.HoldsOfNumbers rel) : g.Owes true rel a b ↔ g.Covers rel a b := by
  have layer : ∀ {s t}, g.type? a = some s → g.type? b = some t → s.kind = t.kind →
      ((∃ new, g.constituentPairs? true s t = some new ∧ ∀ pair ∈ new, rel pair.1 pair.2) ↔
        s.Agrees g.foldedKind? rel t) := by
    intro s t left right kinds
    by_cases isUnion : s.kind = .union
    · obtain ⟨l, rfl⟩ := Ty.exists_union_of_kind isUnion
      obtain ⟨r, rfl⟩ := Ty.exists_union_of_kind kinds.symm
      exact pairs_of_folded_union_iff left right numbers
    · rw [Ty.agrees_iff_alike isUnion]
      exact g.pairs_iff kinds isUnion
  rw [owes_iff]
  constructor
  · rintro ⟨s, t, left, right, agree, pairs⟩
    rcases Kind.folded_eq_folded_iff.1 (kindsAgree_true_iff.1 agree) with kinds | ⟨numberS, numberT⟩
    · exact .inr ⟨s, t, left, right, (layer left right kinds).1 pairs⟩
    · rw [← Kind.folded_eq_double_iff] at numberS numberT
      refine .inl ⟨?_, ?_⟩
      · rw [IsNumber, foldedKind?_of_type? left, numberS]
      · rw [IsNumber, foldedKind?_of_type? right, numberT]
  · rintro (⟨numberA, numberB⟩ | ⟨s, t, left, right, agrees⟩)
    · obtain ⟨p, left, numberP⟩ := numberA.exists_primitive
      obtain ⟨q, right, numberQ⟩ := numberB.exists_primitive
      refine ⟨_, _, left, right, ?_, [], rfl, fun pair listed => by cases listed⟩
      exact kindsAgree_true_iff.2 (Kind.folded_eq_folded_iff.2 (.inr ⟨numberP, numberQ⟩))
    · have kinds := agrees.kind_eq
      refine ⟨s, t, left, right, kindsAgree_true_iff.2 (congrArg Kind.folded kinds), ?_⟩
      exact (layer left right kinds).2 agrees

/-! ### Turning a layer around -/

theorem MixesNumbers.exists_union {r : Ref} (mixes : g.MixesNumbers r) :
    ∃ members, g.type? r = some (.union members) ∧ ∃ m ∈ members, ∃ n ∈ members,
      g.kind? m = some .integer ∧ g.kind? n = some .double := by
  obtain ⟨m, inM, n, inN, integer, double⟩ := mixes
  obtain ⟨members, found, listedM⟩ := g.mem_members_iff.1 inM
  obtain ⟨members', found', listedN⟩ := g.mem_members_iff.1 inN
  cases found.symm.trans found'
  exact ⟨members, found, m, listedM, n, listedN, integer, double⟩

/-- Where a union does not mix numbers, its members differ in their folded kinds. -/
theorem nodup_foldedKinds {l : OrderedSet Ref} (found : g.type? a = some (.union l))
    (apart : ¬ g.MixesNumbers a) : (l.toList.map g.foldedKind?).Nodup := by
  have inside : ∀ m ∈ l, m ∈ g.members a := fun m listed => g.mem_members_iff.2 ⟨l, found, listed⟩
  refine List.Nodup.map_on (fun m inM n inN same => ?_) l.nodup
  refine g.eq_of_kind?_eq found inM inN ?_
  rcases kind?_eq_or_isNumber same with equal | ⟨numberM, numberN⟩
  · exact equal
  · have mixes : ∀ x ∈ l, ∀ y ∈ l, g.kind? x = some .integer → g.kind? y ≠ some .double :=
      fun x inX y inY integer double => apart ⟨x, inside x inX, y, inside y inY, integer, double⟩
    rcases numberM.kind?_eq with integerM | doubleM
    · rcases numberN.kind?_eq with integerN | doubleN
      · rw [integerM, integerN]
      · exact absurd doubleN (mixes m inM n inN integerM)
    · rcases numberN.kind?_eq with integerN | doubleN
      · exact absurd doubleM (mixes n inN m inM integerN)
      · rw [doubleM, doubleN]

/-- What covers a union that mixes numbers mixes them too: otherwise its members have as many folded kinds
as it has members, and the other union has fewer. -/
theorem Covers.mixesNumbers (covers : g.Covers rel a b) (mixes : g.MixesNumbers b) : g.MixesNumbers a := by
  obtain ⟨r, right, i, inI, d, inD, integer, double⟩ := mixes.exists_union
  rcases covers with ⟨_, numberB⟩ | ⟨s, t, left, right', agrees⟩
  · rw [IsNumber, foldedKind?_of_type? right] at numberB
    cases numberB
  · cases right.symm.trans right'
    obtain ⟨l, rfl⟩ := Ty.exists_union_of_kind agrees.kind_eq
    obtain ⟨size, members⟩ := Ty.agrees_union_iff.1 agrees
    by_contra apart
    have differ : d ≠ i := by
      rintro rfl
      cases integer.symm.trans double
    have folded : g.foldedKind? d = g.foldedKind? i := by
      rw [foldedKind?, foldedKind?, integer, double]
      rfl
    have inside : l.toList.map g.foldedKind? ⊆ (r.toList.erase i).map g.foldedKind? := by
      intro kind listed
      obtain ⟨m, inL, rfl⟩ := List.mem_map.1 listed
      obtain ⟨n, inR, same, _⟩ := members m inL
      by_cases here : n = i
      · refine List.mem_map.2 ⟨d, (List.mem_erase_of_ne differ).2 inD, ?_⟩
        rw [folded, same, here]
      · exact List.mem_map.2 ⟨n, (List.mem_erase_of_ne here).2 inR, same.symm⟩
    have short := ((nodup_foldedKinds left apart).subperm inside).length_le
    have positive := List.length_pos_of_mem inI
    rw [List.length_map, List.length_map, List.length_erase_of_mem inI] at short
    have lengths : l.toList.length = r.toList.length := size
    omega

/-- Between unions that both mix numbers, or both do not, a layer can be turned around. -/
theorem Covers.symm (sides : ∀ x y, rel x y → rel y x) (numbers : g.HoldsOfNumbers rel)
    (mixes : g.MixesNumbers a → g.MixesNumbers b) (covers : g.Covers rel a b) : g.Covers rel b a := by
  rcases covers with ⟨numberA, numberB⟩ | ⟨s, t, left, right, agrees⟩
  · exact .inl ⟨numberB, numberA⟩
  refine .inr ⟨t, s, right, left, ?_⟩
  by_cases isUnion : s.kind = .union
  · obtain ⟨l, rfl⟩ := Ty.exists_union_of_kind isUnion
    obtain ⟨r, rfl⟩ := Ty.exists_union_of_kind (agrees.kind_eq.symm.trans isUnion)
    obtain ⟨size, members⟩ := Ty.agrees_union_iff.1 agrees
    -- members are told apart by their kinds where numbers are mixed, by their folded kinds elsewhere
    have turn : ∀ kind? : Ref → Option Kind, (l.toList.map kind?).Nodup → (r.toList.map kind?).Nodup →
        (∀ m ∈ l, ∃ n ∈ r, kind? m = kind? n ∧ rel m n) →
        r.size = l.size ∧ ∀ n ∈ r, ∃ m ∈ l, kind? n = kind? m ∧ rel n m := by
      intro kind? distinctL distinctR counterparts
      have alike := (Ty.alike_union_iff distinctL distinctR).2 ⟨size, counterparts⟩
      exact (Ty.alike_union_iff distinctR distinctL).1 (alike.symm.mono fun x y => sides y x)
    rw [Ty.agrees_union_iff]
    by_cases mixed : g.MixesNumbers a
    · obtain ⟨r', right', i, inI, d, inD, integer, double⟩ := (mixes mixed).exists_union
      cases right.symm.trans right'
      have counterparts : ∀ m ∈ l, ∃ n ∈ r, g.kind? m = g.kind? n ∧ rel m n := by
        intro m inL
        obtain ⟨n, inR, same, related⟩ := members m inL
        rcases kind?_eq_or_isNumber same with equal | ⟨numberM, _⟩
        · exact ⟨n, inR, equal, related⟩
        · have numberI : g.IsNumber i := by rw [IsNumber, foldedKind?, integer]; rfl
          have numberD : g.IsNumber d := by rw [IsNumber, foldedKind?, double]; rfl
          rcases numberM.kind?_eq with integerM | doubleM
          · exact ⟨i, inI, integerM.trans integer.symm, numbers m i numberM numberI⟩
          · exact ⟨d, inD, doubleM.trans double.symm, numbers m d numberM numberD⟩
      obtain ⟨size', back⟩ := turn g.kind? (g.nodup_kinds_of_union left) (g.nodup_kinds_of_union right)
        counterparts
      refine ⟨size', fun n inR => ?_⟩
      obtain ⟨m, inL, same, related⟩ := back n inR
      exact ⟨m, inL, congrArg (Option.map Kind.folded) same, related⟩
    · have apart : ¬ g.MixesNumbers b := fun mixesB =>
        mixed (Covers.mixesNumbers (.inr ⟨_, _, left, right, agrees⟩) mixesB)
      exact turn g.foldedKind? (nodup_foldedKinds left mixed) (nodup_foldedKinds right apart) members
  · have isUnion' : t.kind ≠ .union := fun same => isUnion (agrees.kind_eq.trans same)
    rw [Ty.agrees_iff_alike isUnion']
    rw [Ty.agrees_iff_alike isUnion] at agrees
    exact agrees.symm.mono fun x y => sides y x

/-! ## The strict and the loose relation -/

/-- Some relation that has no direction holds of the references, and its pairs are equal or pass the layer. -/
def Tied (layer : (Ref → Ref → Prop) → Ref → Ref → Prop) (a b : Ref) : Prop :=
  ∃ rel : Ref → Ref → Prop, (∀ x y, rel x y → rel y x) ∧
    (∀ x y, rel x y → x = y ∨ layer rel x y) ∧ rel a b

section Tied

variable {layer : (Ref → Ref → Prop) → Ref → Ref → Prop}

theorem Tied.symm (tied : Tied layer a b) : Tied layer b a := by
  obtain ⟨rel, sides, step, related⟩ := tied
  exact ⟨rel, sides, step, sides a b related⟩

theorem tied_refl (layer : (Ref → Ref → Prop) → Ref → Ref → Prop) (a : Ref) : Tied layer a a :=
  ⟨Eq, fun _ _ => Eq.symm, fun _ _ => .inl, rfl⟩

theorem Tied.step (mono : ∀ rel wider : Ref → Ref → Prop, (∀ x y, rel x y → wider x y) →
      ∀ x y, layer rel x y → layer wider x y) (tied : Tied layer a b) :
    a = b ∨ layer (Tied layer) a b := by
  obtain ⟨rel, sides, step, related⟩ := tied
  exact (step a b related).imp_right (mono _ _ (fun x y inner => ⟨rel, sides, step, inner⟩) a b)

end Tied

section Relations

variable (g : Graph)

/-- One of the types covers the other. -/
def CoversEither (rel : Ref → Ref → Prop) (a b : Ref) : Prop := g.Covers rel a b ∨ g.Covers rel b a

/-- Types of one shape up to the kinds of numbers: both directions hold at every pair, for the relation
has none. -/
def AlikeUpToNumbers : Ref → Ref → Prop := Tied g.Covers

/-- Types that would have one shape if only one direction had to hold at every pair. -/
def LooselyAlike : Ref → Ref → Prop := Tied g.CoversEither

/-- No union that mixes integers and doubles is loosely alike to one that does not. -/
def NumbersKeepApart : Prop := ∀ a b, g.LooselyAlike a b → g.MixesNumbers a → g.MixesNumbers b

end Relations

theorem AlikeUpToNumbers.step (alike : g.AlikeUpToNumbers a b) :
    a = b ∨ g.Covers g.AlikeUpToNumbers a b :=
  Tied.step (fun _ _ widen _ _ => Covers.mono widen) alike

theorem LooselyAlike.step (alike : g.LooselyAlike a b) :
    a = b ∨ g.CoversEither g.LooselyAlike a b :=
  Tied.step (fun _ _ widen _ _ => Or.imp (Covers.mono widen) (Covers.mono widen)) alike

theorem holdsOfNumbers_alikeUpToNumbers : g.HoldsOfNumbers g.AlikeUpToNumbers := by
  intro x y numberX numberY
  refine ⟨fun x y => g.IsNumber x ∧ g.IsNumber y, ?_, ?_, numberX, numberY⟩
  · exact fun x y both => both.symm
  · exact fun x y both => .inr (.inl both)

theorem looselyAlike_of_alikeUpToNumbers (alike : g.AlikeUpToNumbers a b) : g.LooselyAlike a b := by
  obtain ⟨rel, sides, step, related⟩ := alike
  exact ⟨rel, sides, fun x y inner => (step x y inner).imp_right .inl, related⟩

theorem holdsOfNumbers_looselyAlike : g.HoldsOfNumbers g.LooselyAlike := fun x y numberX numberY =>
  looselyAlike_of_alikeUpToNumbers (holdsOfNumbers_alikeUpToNumbers x y numberX numberY)

/-! ## What a comparison decides -/

/-- Types of one shape owe each other types of one shape. -/
theorem paying_sameShape {conflate : Bool} :
    g.Paying conflate fun x y => g.sameShape conflate x y = true where
  symm := fun _ _ => sameShape_symm
  owes := by
    intro x y same less
    obtain ⟨rel, paying, related⟩ := (sameShape_iff_paying.1 same).resolve_left (Nat.ne_of_lt less)
    obtain ⟨new, owed, holds⟩ := paying.owes x y related less
    refine ⟨new, owed, fun pair listed => (holds pair listed).imp_right fun inner => ?_⟩
    exact sameShape_iff_paying.2 (.inr ⟨rel, paying, inner⟩)

/-- A relation whose pairs cover each other in the order of their numbers is one that no comparison refutes. -/
theorem paying_of_covers (sides : ∀ x y, rel x y → rel y x) (numbers : g.HoldsOfNumbers rel)
    (covers : ∀ x y, rel x y → x < y → g.Covers rel x y) : g.Paying true rel where
  symm := sides
  owes := by
    intro x y related less
    obtain ⟨new, owed, holds⟩ := (owes_iff_covers numbers).2 (covers x y related less)
    exact ⟨new, owed, fun pair listed => .inr (holds pair listed)⟩

theorem sameShape_of_alikeUpToNumbers (alike : g.AlikeUpToNumbers a b) : g.sameShape true a b = true := by
  refine sameShape_iff_paying.2 (.inr ⟨g.AlikeUpToNumbers, ?_, alike⟩)
  refine paying_of_covers (fun _ _ => Tied.symm) holdsOfNumbers_alikeUpToNumbers ?_
  exact fun x y related less => related.step.resolve_left (Nat.ne_of_lt less)

theorem holdsOfNumbers_sameShape : g.HoldsOfNumbers fun x y => g.sameShape true x y = true :=
  fun x y numberX numberY => sameShape_of_alikeUpToNumbers (holdsOfNumbers_alikeUpToNumbers x y numberX numberY)

/-- The type with the smaller number covers the other. -/
theorem covers_of_sameShape (same : g.sameShape true a b = true) (less : a < b) :
    g.Covers (fun x y => g.sameShape true x y = true) a b := by
  refine (owes_iff_covers holdsOfNumbers_sameShape).1 ?_
  obtain ⟨new, owed, holds⟩ := paying_sameShape.owes a b same less
  refine ⟨new, owed, fun pair listed => ?_⟩
  rcases holds pair listed with equal | inner
  · rw [equal]
    exact sameShape_refl _
  · exact inner

theorem looselyAlike_of_sameShape (same : g.sameShape true a b = true) : g.LooselyAlike a b := by
  refine ⟨fun x y => g.sameShape true x y = true, fun _ _ => sameShape_symm, fun x y inner => ?_, same⟩
  rcases Nat.lt_trichotomy x y with less | equal | more
  · exact .inr (.inl (covers_of_sameShape inner less))
  · exact .inl equal
  · exact .inr (.inr (covers_of_sameShape (sameShape_symm inner) more))

/-- Where unions that mix numbers come first among loosely alike ones, a comparison finds all that is
loosely alike. -/
theorem sameShape_of_looselyAlike
    (order : ∀ x y, g.LooselyAlike x y → x < y → g.MixesNumbers y → g.MixesNumbers x)
    (alike : g.LooselyAlike a b) : g.sameShape true a b = true := by
  refine sameShape_iff_paying.2 (.inr ⟨g.LooselyAlike, ?_, alike⟩)
  refine paying_of_covers (fun _ _ => Tied.symm) holdsOfNumbers_looselyAlike fun x y related less => ?_
  rcases related.step.resolve_left (Nat.ne_of_lt less) with covers | turned
  · exact covers
  · exact turned.symm (fun _ _ => Tied.symm) holdsOfNumbers_looselyAlike (order x y related less)

namespace NumbersKeepApart

variable (apart : g.NumbersKeepApart)

include apart

/-- Where numbers keep apart, nothing is alike in one direction only. -/
theorem covers (alike : g.LooselyAlike a b) : a = b ∨ g.Covers g.LooselyAlike a b := by
  refine alike.step.imp_right ?_
  rintro (covers | turned)
  · exact covers
  · exact turned.symm (fun _ _ => Tied.symm) holdsOfNumbers_looselyAlike (apart b a alike.symm)

theorem alikeUpToNumbers (alike : g.LooselyAlike a b) : g.AlikeUpToNumbers a b :=
  ⟨g.LooselyAlike, fun _ _ => Tied.symm, fun _ _ => apart.covers, alike⟩

theorem sameShape_iff : g.sameShape true a b = true ↔ g.AlikeUpToNumbers a b :=
  ⟨fun same => apart.alikeUpToNumbers (looselyAlike_of_sameShape same), sameShape_of_alikeUpToNumbers⟩

end NumbersKeepApart

/-- Being alike up to the kinds of numbers is transitive. -/
theorem AlikeUpToNumbers.trans {c : Ref} (one : g.AlikeUpToNumbers a b) (two : g.AlikeUpToNumbers b c) :
    g.AlikeUpToNumbers a c := by
  refine ⟨fun x z => ∃ y, g.AlikeUpToNumbers x y ∧ g.AlikeUpToNumbers y z, ?_, ?_, b, one, two⟩
  · rintro x z ⟨y, first, second⟩
    exact ⟨y, second.symm, first.symm⟩
  · rintro x z ⟨y, first, second⟩
    rcases first.step with rfl | covers
    · refine second.step.imp_right (Covers.mono fun m n inner => ⟨m, tied_refl _ m, inner⟩)
    · rcases second.step with rfl | covers'
      · exact .inr (covers.mono fun m n inner => ⟨n, inner, tied_refl _ n⟩)
      · exact .inr (covers.trans covers')

/-! ## Other numberings -/

namespace Permutes

variable {g' : Graph} {permutation : Equiv.Perm Ref} (permutes : g.Permutes g' permutation)

include permutes

theorem foldedKind?_image (r : Ref) : g'.foldedKind? (permutation r) = g.foldedKind? r := by
  rw [foldedKind?, permutes.kind?_image, foldedKind?]

theorem mixesNumbers_iff (r : Ref) : g'.MixesNumbers (permutation r) ↔ g.MixesNumbers r := by
  constructor
  · rintro ⟨m, inM, n, inN, integer, double⟩
    obtain ⟨m, rfl⟩ := permutation.surjective m
    obtain ⟨n, rfl⟩ := permutation.surjective n
    rw [permutes.mem_members_iff] at inM inN
    rw [permutes.kind?_image] at integer double
    exact ⟨m, inM, n, inN, integer, double⟩
  · rintro ⟨m, inM, n, inN, integer, double⟩
    refine ⟨permutation m, (permutes.mem_members_iff r m).2 inM, permutation n,
      (permutes.mem_members_iff r n).2 inN, ?_, ?_⟩
    · rw [permutes.kind?_image, integer]
    · rw [permutes.kind?_image, double]

theorem covers_image (covers : g.Covers rel a b) :
    g'.Covers (fun x y => rel (permutation.symm x) (permutation.symm y)) (permutation a) (permutation b) := by
  rcases covers with ⟨numberA, numberB⟩ | ⟨s, t, left, right, agrees⟩
  · refine .inl ⟨?_, ?_⟩
    · rw [IsNumber, permutes.foldedKind?_image, numberA]
    · rw [IsNumber, permutes.foldedKind?_image, numberB]
  · refine .inr ⟨_, _, ?_, ?_, agrees.image permutation.injective permutes.foldedKind?_image ?_⟩
    · rw [permutes.type?_image, left, Option.map_some]
    · rw [permutes.type?_image, right, Option.map_some]
    · intro x y related
      simpa using related

theorem looselyAlike_image (alike : g.LooselyAlike a b) : g'.LooselyAlike (permutation a) (permutation b) := by
  obtain ⟨rel, sides, step, related⟩ := alike
  refine ⟨fun x y => rel (permutation.symm x) (permutation.symm y), fun x y => sides _ _, ?_, ?_⟩
  · intro x y inner
    obtain ⟨x, rfl⟩ := permutation.surjective x
    obtain ⟨y, rfl⟩ := permutation.surjective y
    rw [permutation.symm_apply_apply, permutation.symm_apply_apply] at inner
    refine (step x y inner).imp (congrArg permutation) ?_
    exact Or.imp permutes.covers_image permutes.covers_image
  · simpa using related

theorem looselyAlike_iff : g'.LooselyAlike (permutation a) (permutation b) ↔ g.LooselyAlike a b := by
  refine ⟨fun alike => ?_, permutes.looselyAlike_image⟩
  simpa using permutes.symm.looselyAlike_image alike

theorem numbersKeepApart (apart : g.NumbersKeepApart) : g'.NumbersKeepApart := by
  intro a b alike mixes
  obtain ⟨a, rfl⟩ := permutation.surjective a
  obtain ⟨b, rfl⟩ := permutation.surjective b
  rw [permutes.mixesNumbers_iff] at mixes ⊢
  exact apart a b (permutes.looselyAlike_iff.1 alike) mixes

/-- If two types and their images are found alike or not together, the comparisons give the same answer, or
none together. -/
theorem sameShape?_image (same : g'.sameShape true (permutation a) (permutation b) = g.sameShape true a b) :
    g'.sameShape? true (permutation a) (permutation b) = g.sameShape? true a b := by
  have inside : ∀ r, g'.has (permutation r) = g.has r := by
    intro r
    simp [has, permutes.lt_iff]
  rw [sameShape?, sameShape?, inside, inside, same]
  simp only [permutation.injective.eq_iff]

end Permutes

theorem Covers.lt (covers : g.Covers rel a b) : a < g.size ∧ b < g.size := by
  rcases covers with ⟨numberA, numberB⟩ | ⟨s, t, left, right, _⟩
  · obtain ⟨_, left, _⟩ := numberA.exists_primitive
    obtain ⟨_, right, _⟩ := numberB.exists_primitive
    exact ⟨g.lt_of_type? left, g.lt_of_type? right⟩
  · exact ⟨g.lt_of_type? left, g.lt_of_type? right⟩

theorem LooselyAlike.lt (alike : g.LooselyAlike a b) (differ : a ≠ b) : a < g.size ∧ b < g.size := by
  rcases alike.step.resolve_left differ with covers | turned
  · exact covers.lt
  · exact turned.lt.symm

/-! ## When a comparison respects shapes -/

/-- Having one shape, integers and doubles counted as one, is an equivalence of the nodes of the graph that
does not depend on their numbers. -/
structure ConflationRespectsShape (g : Graph) : Prop where
  refl : ∀ a, a < g.size → g.sameShape? true a a = some true
  symm : ∀ a b, g.sameShape? true a b = some true → g.sameShape? true b a = some true
  trans : ∀ a b c, g.sameShape? true a b = some true → g.sameShape? true b c = some true →
    g.sameShape? true a c = some true
  renumbered : ∀ permutation g', g.Permutes g' permutation → ∀ a b,
    g'.sameShape? true (permutation a) (permutation b) = g.sameShape? true a b

theorem sameShape?_eq_true_iff {conflate : Bool} : g.sameShape? conflate a b = some true ↔
    a = b ∨ (a < g.size ∧ b < g.size ∧ g.sameShape conflate a b = true) := by
  by_cases equal : a = b
  · simp [sameShape?, equal]
  · by_cases inA : a < g.size <;> by_cases inB : b < g.size <;>
      simp [sameShape?, equal, has, inA, inB]

theorem ConflationRespectsShape.numbersKeepApart (respects : g.ConflationRespectsShape) :
    g.NumbersKeepApart := by
  intro a b alike mixesA
  by_contra apartB
  have differ : a ≠ b := by
    rintro rfl
    exact apartB mixesA
  obtain ⟨inA, inB⟩ := alike.lt differ
  -- with the unions that mix numbers first, the comparison finds the types alike
  obtain ⟨mixedFirst, g₁, permutes₁, order₁⟩ := g.exists_permuted_first g.MixesNumbers
  have found : g₁.sameShape true (mixedFirst a) (mixedFirst b) = true := by
    refine sameShape_of_looselyAlike (fun x y related less mixesY => ?_) (permutes₁.looselyAlike_image alike)
    obtain ⟨x, rfl⟩ := mixedFirst.surjective x
    obtain ⟨y, rfl⟩ := mixedFirst.surjective y
    have apart : x ≠ y := by
      rintro rfl
      exact Nat.lt_irrefl _ less
    obtain ⟨inX, inY⟩ := (permutes₁.looselyAlike_iff.1 related).lt apart
    rw [permutes₁.mixesNumbers_iff] at mixesY ⊢
    by_contra plain
    exact Nat.lt_asymm less (order₁ y x inY inX mixesY plain)
  have same : g.sameShape? true a b = some true := by
    rw [← respects.renumbered mixedFirst g₁ permutes₁]
    exact sameShape?_eq_true_iff.2 (.inr ⟨(permutes₁.lt_iff a).2 inA, (permutes₁.lt_iff b).2 inB, found⟩)
  -- with these unions last, it asks the other one for a second kind of number
  obtain ⟨mixedLast, g₂, permutes₂, order₂⟩ := g.exists_permuted_first fun r => ¬ g.MixesNumbers r
  have less := order₂ b a inB inA apartB (not_not.2 mixesA)
  rw [← respects.renumbered mixedLast g₂ permutes₂, sameShape?_eq_true_iff] at same
  obtain ⟨_, _, same⟩ := same.resolve_left (Nat.ne_of_gt less)
  have covers := covers_of_sameShape (sameShape_symm same) less
  refine apartB ((permutes₂.mixesNumbers_iff b).1 (covers.mixesNumbers ?_))
  exact (permutes₂.mixesNumbers_iff a).2 mixesA

theorem NumbersKeepApart.respectsShape (apart : g.NumbersKeepApart) : g.ConflationRespectsShape where
  refl a _ := sameShape?_eq_true_iff.2 (.inl rfl)
  symm a b same := by
    rw [sameShape?_eq_true_iff] at same ⊢
    refine same.imp Eq.symm ?_
    rintro ⟨inA, inB, alike⟩
    exact ⟨inB, inA, sameShape_symm alike⟩
  trans a b c one two := by
    rw [sameShape?_eq_true_iff] at one two ⊢
    rcases one with rfl | ⟨inA, _, first⟩
    · exact two
    · rcases two with rfl | ⟨_, inC, second⟩
      · exact .inr ⟨inA, by assumption, first⟩
      · refine .inr ⟨inA, inC, ?_⟩
        rw [apart.sameShape_iff] at first second ⊢
        exact first.trans second
  renumbered permutation g' permutes a b := by
    refine permutes.sameShape?_image ?_
    have loose : ∀ {h : Graph} {x y : Ref}, h.NumbersKeepApart →
        (h.sameShape true x y = true ↔ h.LooselyAlike x y) := by
      intro h x y keep
      exact keep.sameShape_iff.trans ⟨looselyAlike_of_alikeUpToNumbers, keep.alikeUpToNumbers⟩
    rw [Bool.eq_iff_iff, loose (permutes.numbersKeepApart apart), loose apart, permutes.looselyAlike_iff]

/-- With integers and doubles counted as one, comparing two types of a graph has one answer whichever comes
first, and it lies between the strict and the loose relation. It is an equivalence that does not depend on
the numbers of nodes exactly where no union that mixes the two kinds of numbers is loosely alike to one that
does not; there it is the strict relation. -/
theorem respects_shape_iff_numbersKeepApart (g : Graph) :
    (∀ a b, a < g.size → b < g.size → ∃ answer, g.sameShape? true a b = some answer ∧
      g.sameShape? true b a = some answer ∧ (a = b → answer = true) ∧
      (g.AlikeUpToNumbers a b → answer = true) ∧ (answer = true → g.LooselyAlike a b)) ∧
    (g.ConflationRespectsShape ↔ g.NumbersKeepApart) ∧
    (g.NumbersKeepApart → ∀ a b, a < g.size → b < g.size →
      (g.sameShape? true a b = some true ↔ g.AlikeUpToNumbers a b)) := by
  refine ⟨?_, ⟨ConflationRespectsShape.numbersKeepApart, NumbersKeepApart.respectsShape⟩, ?_⟩
  · intro a b inA inB
    refine ⟨g.sameShape true a b, sameShape?_eq_some inA inB, ?_, ?_, sameShape_of_alikeUpToNumbers,
      looselyAlike_of_sameShape⟩
    · rw [sameShape?_eq_some inB inA, sameShape_comm]
    · rintro rfl
      exact sameShape_refl a
  · intro apart a b inA inB
    rw [sameShape?_eq_some inA inB, Option.some.injEq, apart.sameShape_iff]

/-- Numbers keep apart where no union mixes them. -/
theorem numbersKeepApart_of_forall (plain : ∀ r < g.size, ¬ g.MixesNumbers r) : g.NumbersKeepApart := by
  intro a b _ mixes
  obtain ⟨_, found, _⟩ := mixes.exists_union
  exact absurd mixes (plain a (g.lt_of_type? found))

/-- A number or nothing, and a double or nothing. -/
def optionalNumbers : Graph :=
  ⟨#[⟨.primitive .integer, .empty⟩, ⟨.primitive .double, .empty⟩, ⟨.primitive .null, .empty⟩,
      ⟨.union (.ofList [2, 0]), .empty⟩, ⟨.union (.ofList [1, 2]), .empty⟩],
    .empty, firstFault?_eq_none_iff.1 (by decide +kernel)⟩

/-- Unions that do not mix numbers are compared by their shapes alone. -/
theorem optionalNumbers_respect_shape : optionalNumbers.NumbersKeepApart ∧
    optionalNumbers.ConflationRespectsShape ∧ optionalNumbers.sameShape? true 3 4 = some true ∧
      optionalNumbers.AlikeUpToNumbers 3 4 := by
  have apart : optionalNumbers.NumbersKeepApart := numbersKeepApart_of_forall (by decide)
  have same : optionalNumbers.sameShape? true 3 4 = some true := by cbv
  obtain ⟨_, respects, decides⟩ := respects_shape_iff_numbersKeepApart optionalNumbers
  exact ⟨apart, respects.2 apart, same, (decides apart 3 4 (by decide) (by decide)).1 same⟩

/-- A double or a text, an integer or a double, and an integer or a text. -/
def mixedNumbers : Graph :=
  ⟨#[⟨.primitive .integer, .empty⟩, ⟨.primitive .double, .empty⟩, ⟨.primitive .string, .empty⟩,
      ⟨.union (.ofList [1, 2]), .empty⟩, ⟨.union (.ofList [0, 1]), .empty⟩, ⟨.union (.ofList [0, 2]), .empty⟩],
    .empty, firstFault?_eq_none_iff.1 (by decide +kernel)⟩

/-- A union of both kinds of numbers is found alike to one of the unions with a text, which are alike, and not
to the other. -/
theorem conflation_is_no_equivalence : ¬ ∀ g : Graph, g.ConflationRespectsShape := by
  intro respects
  have first : mixedNumbers.sameShape? true 3 5 = some true := by cbv
  have second : mixedNumbers.sameShape? true 5 4 = some true := by cbv
  have third : mixedNumbers.sameShape? true 3 4 = some false := by cbv
  have joined := (respects mixedNumbers).trans 3 5 4 first second
  rw [third] at joined
  cases joined

end Graph

end SchemaGraph
