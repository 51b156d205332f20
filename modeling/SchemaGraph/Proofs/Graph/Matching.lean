import SchemaGraph.Proofs.Graph.Walk
import SchemaGraph.Proofs.Node
/-!
# Proofs.Graph.Matching -- having one shape is being bisimilar

`Ty.Alike` says when two types match, given which of their constituents do; it treats both sides
alike. A comparison that ends without a failure leaves the pairs behind that it went through, and they
owe each other nothing else; a relation whose pairs owe each other nothing else keeps it from failing
(`Graph.Paying`, `Graph.sameShape_iff_paying`). Where integers and doubles are kept apart, that says that
two types have one shape exactly when they are equal or some relation between types whose pairs are all
alike holds of them (`Graph.sameShape_iff`). So having one shape is symmetric and transitive
(`Graph.sameShape_symm`, `Graph.sameShape_trans`).
-/

namespace SchemaGraph

set_option autoImplicit false

/-- Lists without repetitions, as long as each other: if one is contained in the other, they have
the same elements. -/
theorem mem_of_nodup_of_subset {α : Type} {xs ys : List α} (distinct : xs.Nodup)
    (sub : ∀ x ∈ xs, x ∈ ys) (short : ys.length ≤ xs.length) {y : α} (member : y ∈ ys) : y ∈ xs := by
  have perm : xs.Perm ys := (distinct.subperm sub).perm_of_length_le short
  exact perm.mem_iff.2 member

theorem length_eq_of_nodup {α : Type} {xs ys : List α} (distinct : xs.Nodup) (other : ys.Nodup)
    (same : ∀ x, x ∈ xs ↔ x ∈ ys) : xs.length = ys.length :=
  ((List.perm_ext_iff_of_nodup distinct other).2 same).length_eq

theorem mapM_eq_some_iff {α β : Type} {f : α → Option β} {xs : List α} {ys : List β} :
    xs.mapM f = some ys ↔ List.Forall₂ (fun x y => f x = some y) xs ys := by
  induction xs generalizing ys with
  | nil =>
    rw [List.mapM_nil]
    constructor
    · rintro found
      cases found
      exact .nil
    · intro related
      cases related
      rfl
  | cons x rest ih =>
    rw [List.mapM_cons]
    constructor
    · intro found
      obtain ⟨y, here, found⟩ := Option.bind_eq_some_iff.1 found
      obtain ⟨zs, later, found⟩ := Option.bind_eq_some_iff.1 found
      cases found
      exact .cons here (ih.1 later)
    · intro related
      cases related with
      | cons here later =>
        rw [here, ih.2 later]
        rfl

theorem exists_mapM_eq_some {α β : Type} {f : α → Option β} {xs : List α}
    (each : ∀ x ∈ xs, ∃ y, f x = some y) : ∃ ys, xs.mapM f = some ys := by
  induction xs with
  | nil => exact ⟨[], rfl⟩
  | cons x rest ih =>
    obtain ⟨y, here⟩ := each x List.mem_cons_self
    obtain ⟨ys, later⟩ := ih fun z listed => each z (List.mem_cons_of_mem _ listed)
    refine ⟨y :: ys, ?_⟩
    rw [List.mapM_cons, here, later]
    rfl

/-! ## One layer of a shape -/

/-- Two types match if the given pairs of constituents do: members of unions kind by kind, properties
of records name by name. -/
inductive Ty.Alike (kind? : Ref → Option Kind) (rel : Ref → Ref → Prop) : Ty → Ty → Prop
  | primitive {p : Primitive} : Alike kind? rel (.primitive p) (.primitive p)
  | array {a b : Ref} : rel a b → Alike kind? rel (.array a) (.array b)
  | map {a b : Ref} : rel a b → Alike kind? rel (.map a) (.map b)
  | enum {l r : OrderedSet String} : (∀ c, c ∈ l ↔ c ∈ r) → Alike kind? rel (.enum l) (.enum r)
  | union {l r : OrderedSet Ref} :
      (∀ kind, (∃ m ∈ l, kind? m = kind) ↔ ∃ n ∈ r, kind? n = kind) →
      (∀ m ∈ l, ∀ n ∈ r, kind? m = kind? n → rel m n) → Alike kind? rel (.union l) (.union r)
  | record {l r : Record} :
      (∀ name, name ∈ l.properties.keys ↔ name ∈ r.properties.keys) →
      (∀ name p q, l.property? name = some p → r.property? name = some q →
        p.optional = q.optional ∧ rel p.type q.type) →
      Alike kind? rel (.record l) (.record r)

namespace Ty.Alike

variable {kind? : Ref → Option Kind} {rel wider first second : Ref → Ref → Prop} {a b c : Ty}

theorem mono (widen : ∀ x y, rel x y → wider x y) (alike : a.Alike kind? rel b) :
    a.Alike kind? wider b := by
  cases alike with
  | primitive => exact .primitive
  | array items => exact .array (widen _ _ items)
  | map values => exact .map (widen _ _ values)
  | enum cases => exact .enum cases
  | union kinds members =>
    exact .union kinds fun m inL n inR same => widen _ _ (members m inL n inR same)
  | record names types =>
    refine .record names fun name p q foundP foundQ => ?_
    obtain ⟨optional, related⟩ := types name p q foundP foundQ
    exact ⟨optional, widen _ _ related⟩

theorem symm (alike : a.Alike kind? rel b) : b.Alike kind? (fun x y => rel y x) a := by
  cases alike with
  | primitive => exact .primitive
  | array items => exact .array items
  | map values => exact .map values
  | enum cases => exact .enum fun c => (cases c).symm
  | union kinds members =>
    exact .union (fun kind => (kinds kind).symm) fun n inR m inL same => members m inL n inR same.symm
  | record names types =>
    refine .record (fun name => (names name).symm) fun name q p foundQ foundP => ?_
    obtain ⟨optional, related⟩ := types name p q foundP foundQ
    exact ⟨optional.symm, related⟩

theorem trans (one : a.Alike kind? first b) (two : b.Alike kind? second c) :
    a.Alike kind? (fun x z => ∃ y, first x y ∧ second y z) c := by
  cases one with
  | primitive =>
    cases two
    exact .primitive
  | array items =>
    cases two with
    | array later => exact .array ⟨_, items, later⟩
  | map values =>
    cases two with
    | map later => exact .map ⟨_, values, later⟩
  | enum cases =>
    cases two with
    | enum later => exact .enum fun c => (cases c).trans (later c)
  | union kinds members =>
    cases two with
    | union laterKinds laterMembers =>
      refine .union (fun kind => (kinds kind).trans (laterKinds kind)) ?_
      intro m inL n inR same
      obtain ⟨k, inMiddle, kindK⟩ := (kinds (kind? m)).1 ⟨m, inL, rfl⟩
      exact ⟨k, members m inL k inMiddle kindK.symm, laterMembers k inMiddle n inR (kindK.trans same)⟩
  | @record l m names types =>
    cases two with
    | record laterNames laterTypes =>
      refine .record (fun name => (names name).trans (laterNames name)) ?_
      intro name p r foundP foundR
      have key : name ∈ l.properties.keys := by
        have there : l.properties.get? name = some p := foundP
        exact OrderedMap.isSome_get?_iff.1 (by rw [there]; rfl)
      have key : name ∈ m.properties.keys := (names name).1 key
      obtain ⟨q, foundQ⟩ := Option.isSome_iff_exists.1 (OrderedMap.isSome_get?_iff.2 key)
      obtain ⟨optional, related⟩ := types name p q foundP foundQ
      obtain ⟨laterOptional, laterRelated⟩ := laterTypes name q r foundQ foundR
      exact ⟨optional.trans laterOptional, q.type, related, laterRelated⟩

end Ty.Alike

/-- Unions without two members of one kind match when they are as long as each other and each member
of the first matches the member of its kind in the second. -/
theorem Ty.alike_union_iff {kind? : Ref → Option Kind} {rel : Ref → Ref → Prop}
    {l r : OrderedSet Ref} (distinctL : (l.toList.map kind?).Nodup)
    (distinctR : (r.toList.map kind?).Nodup) :
    (Ty.union l).Alike kind? rel (.union r) ↔
      l.size = r.size ∧ ∀ m ∈ l, ∃ n ∈ r, kind? m = kind? n ∧ rel m n := by
  have lengths : (l.toList.map kind?).length = (r.toList.map kind?).length ↔ l.size = r.size := by
    rw [List.length_map, List.length_map]
    rfl
  constructor
  · intro alike
    cases alike with
    | union kinds members =>
      refine ⟨lengths.1 (length_eq_of_nodup distinctL distinctR fun kind => ?_), fun m inL => ?_⟩
      · rw [List.mem_map, List.mem_map]
        exact kinds kind
      · obtain ⟨n, inR, same⟩ := (kinds (kind? m)).1 ⟨m, inL, rfl⟩
        exact ⟨n, inR, same.symm, members m inL n inR same.symm⟩
  · rintro ⟨size, members⟩
    have inside : ∀ kind ∈ l.toList.map kind?, kind ∈ r.toList.map kind? := by
      intro kind listed
      obtain ⟨m, inL, rfl⟩ := List.mem_map.1 listed
      obtain ⟨n, inR, same, _⟩ := members m inL
      exact List.mem_map.2 ⟨n, inR, same.symm⟩
    refine .union (fun kind => ?_) ?_
    · have back := mem_of_nodup_of_subset distinctL inside (Nat.le_of_eq (lengths.2 size).symm)
        (y := kind)
      have both := Iff.intro (inside kind) back
      rw [List.mem_map, List.mem_map] at both
      exact both
    · intro m inL n inR same
      obtain ⟨n', inR', same', related⟩ := members m inL
      have here : n' = n := List.inj_on_of_nodup_map distinctR inR' inR (same'.symm.trans same)
      exact here ▸ related

namespace Graph

variable (g : Graph)

/-! ## What two types owe each other -/

theorem mem_of_lastOfKind? {kind : Kind} {refs : List Ref} {r : Ref}
    (found : g.lastOfKind? kind refs = some r) : r ∈ refs ∧ g.kind? r = some kind := by
  have listed := List.mem_of_find?_eq_some found
  have kindR := List.find?_some found
  exact ⟨List.mem_reverse.1 listed, of_decide_eq_true kindR⟩

theorem memberPair?_eq_some {others : List Ref} {m : Ref} {pair : Ref × Ref}
    (found : g.memberPair? false others m = some pair) :
    pair.1 = m ∧ pair.2 ∈ others ∧ g.kind? m = g.kind? pair.2 ∧ (g.kind? m).isSome := by
  unfold memberPair? at found
  obtain ⟨kind, kindM, found⟩ := Option.bind_eq_some_iff.1 found
  obtain ⟨n, other, found⟩ := Option.bind_eq_some_iff.1 found
  cases found
  have last : g.lastOfKind? kind others = some n := by
    unfold counterpart? at other
    cases last : g.lastOfKind? kind others with
    | some r =>
      rw [last] at other
      exact other
    | none =>
      rw [last] at other
      cases other
  obtain ⟨listed, kindN⟩ := g.mem_of_lastOfKind? last
  exact ⟨rfl, listed, kindM.trans kindN.symm, by rw [kindM]; rfl⟩

theorem exists_lastOfKind? {kind : Kind} {refs : List Ref} {n : Ref} (listed : n ∈ refs)
    (kindN : g.kind? n = some kind) : ∃ last, g.lastOfKind? kind refs = some last := by
  cases last : g.lastOfKind? kind refs with
  | some r => exact ⟨r, rfl⟩
  | none =>
    have absent := List.find?_eq_none.1 last n (List.mem_reverse.2 listed)
    exact absurd (decide_eq_true kindN) absent

theorem exists_memberPair? {others : List Ref} {m n : Ref} {kind : Kind}
    (kindM : g.kind? m = some kind) (listed : n ∈ others) (kindN : g.kind? n = some kind) :
    ∃ pair, g.memberPair? false others m = some pair := by
  obtain ⟨last, found⟩ := g.exists_lastOfKind? listed kindN
  refine ⟨(m, last), ?_⟩
  unfold memberPair? counterpart?
  rw [kindM]
  simp only [Option.bind_eq_bind, Option.bind_some, found]

/-- Members of a union that have one kind are one member. -/
theorem eq_of_kind?_eq {r m n : Ref} {members : OrderedSet Ref}
    (found : g.type? r = some (.union members)) (inM : m ∈ members) (inN : n ∈ members)
    (same : g.kind? m = g.kind? n) : m = n := by
  obtain ⟨node, at_, type⟩ := Option.map_eq_some_iff.1 found
  exact g.valid.kinds_differ node (Array.mem_of_getElem? at_) members type m inM n inN same

theorem nodup_kinds_of_union {r : Ref} {members : OrderedSet Ref}
    (found : g.type? r = some (.union members)) : (members.toList.map g.kind?).Nodup :=
  List.Nodup.map_on (fun _ inM _ inN same => g.eq_of_kind?_eq found inM inN same) members.nodup

theorem isSome_kind?_of_mem {r m : Ref} {members : OrderedSet Ref}
    (found : g.type? r = some (.union members)) (listed : m ∈ members) :
    ∃ kind, g.kind? m = some kind := by
  have member : m ∈ g.members r := g.mem_members_iff.2 ⟨members, found, listed⟩
  obtain ⟨type, there⟩ := g.exists_type? (g.children_lt (g.children_of_mem_members member))
  exact ⟨type.kind, g.kind?_of_type? there⟩

variable {rel : Ref → Ref → Prop} {a b : Ref}

/-- Members of two unions match when they match kind by kind. -/
theorem pairs_of_union_iff {l r : OrderedSet Ref} (left : g.type? a = some (.union l))
    (right : g.type? b = some (.union r)) :
    (∃ new, g.constituentPairs? false (.union l) (.union r) = some new ∧
      ∀ pair ∈ new, rel pair.1 pair.2) ↔ (Ty.union l).Alike g.kind? rel (.union r) := by
  rw [Ty.alike_union_iff (g.nodup_kinds_of_union left) (g.nodup_kinds_of_union right)]
  constructor
  · rintro ⟨new, pairs, holds⟩
    simp only [constituentPairs?] at pairs
    split at pairs
    · rename_i size
      refine ⟨size, fun m inL => ?_⟩
      obtain ⟨pair, listed, found⟩ := exists_of_mem_left (mapM_eq_some_iff.1 pairs) inL
      obtain ⟨first, inR, same, _⟩ := g.memberPair?_eq_some found
      exact ⟨pair.2, inR, same, first ▸ holds pair listed⟩
    · cases pairs
  · rintro ⟨size, members⟩
    have each : ∀ m ∈ l.toList, ∃ pair, g.memberPair? false r.toList m = some pair := by
      intro m inL
      obtain ⟨kind, kindM⟩ := g.isSome_kind?_of_mem left inL
      obtain ⟨n, inR, same, _⟩ := members m inL
      exact g.exists_memberPair? kindM inR (same.symm.trans kindM)
    obtain ⟨new, pairs⟩ := exists_mapM_eq_some each
    refine ⟨new, ?_, ?_⟩
    · simp only [constituentPairs?, if_pos size]
      exact pairs
    · intro pair listed
      obtain ⟨m, inL, found⟩ := exists_of_mem_right (mapM_eq_some_iff.1 pairs) listed
      obtain ⟨first, inR, same, _⟩ := g.memberPair?_eq_some found
      obtain ⟨n, inR', same', related⟩ := members m inL
      have here : pair.2 = n := g.eq_of_kind?_eq right inR inR' (same.symm.trans same')
      rw [first, here]
      exact related

theorem propertyPair?_eq_some_iff {others : OrderedMap String Property}
    {entry : String × Property} {pair : Ref × Ref} :
    propertyPair? others entry = some pair ↔ ∃ q, others.get? entry.1 = some q ∧
      entry.2.optional = q.optional ∧ pair = (entry.2.type, q.type) := by
  unfold propertyPair?
  constructor
  · intro found
    obtain ⟨q, other, found⟩ := Option.bind_eq_some_iff.1 found
    split at found
    · rename_i same
      cases found
      exact ⟨q, other, same, rfl⟩
    · cases found
  · rintro ⟨q, other, same, rfl⟩
    rw [other]
    exact if_pos same

/-- Properties of two records match when they match name by name. -/
theorem pairs_of_record_iff {conflate : Bool} {kind? : Ref → Option Kind} {l r : Record} :
    (∃ new, g.constituentPairs? conflate (.record l) (.record r) = some new ∧
      ∀ pair ∈ new, rel pair.1 pair.2) ↔ (Ty.record l).Alike kind? rel (.record r) := by
  have listedL : ∀ {entry}, entry ∈ l.properties.entries →
      l.property? entry.1 = some entry.2 := OrderedMap.get?_eq_some_iff.2
  constructor
  · rintro ⟨new, pairs, holds⟩
    simp only [constituentPairs?] at pairs
    split at pairs
    · rename_i size
      have related := mapM_eq_some_iff.1 pairs
      have inside : ∀ name ∈ l.properties.keys, name ∈ r.properties.keys := by
        intro name key
        obtain ⟨entry, listed, rfl⟩ := List.mem_map.1 key
        obtain ⟨pair, _, found⟩ := exists_of_mem_left related listed
        obtain ⟨q, other, _, _⟩ := propertyPair?_eq_some_iff.1 found
        exact OrderedMap.isSome_get?_iff.1 (by rw [other]; rfl)
      have short : r.properties.keys.length ≤ l.properties.keys.length := by
        rw [OrderedMap.keys, OrderedMap.keys, List.length_map, List.length_map]
        exact Nat.le_of_eq size.symm
      refine .record ?_ ?_
      · intro name
        exact ⟨inside name, mem_of_nodup_of_subset l.properties.nodup inside short⟩
      · intro name p q foundP foundQ
        obtain ⟨pair, listed, found⟩ :=
          exists_of_mem_left related (OrderedMap.get?_eq_some_iff.1 foundP)
        obtain ⟨other, there, optional, rfl⟩ := propertyPair?_eq_some_iff.1 found
        have same : q = other := Option.some.inj (foundQ.symm.trans there)
        subst same
        exact ⟨optional, holds _ listed⟩
    · cases pairs
  · intro alike
    cases alike with
    | record names types =>
      have size : l.size = r.size := by
        have lengths := length_eq_of_nodup l.properties.nodup r.properties.nodup names
        rw [List.length_map, List.length_map] at lengths
        exact lengths
      have each : ∀ entry ∈ l.properties.entries,
          ∃ pair, propertyPair? r.properties entry = some pair := by
        intro entry listed
        have key : entry.1 ∈ r.properties.keys := (names entry.1).1 (List.mem_map.2 ⟨entry, listed, rfl⟩)
        obtain ⟨q, foundQ⟩ := Option.isSome_iff_exists.1 (OrderedMap.isSome_get?_iff.2 key)
        obtain ⟨optional, _⟩ := types entry.1 entry.2 q (listedL listed) foundQ
        exact ⟨_, propertyPair?_eq_some_iff.2 ⟨q, foundQ, optional, rfl⟩⟩
      obtain ⟨new, pairs⟩ := exists_mapM_eq_some each
      refine ⟨new, ?_, ?_⟩
      · simp only [constituentPairs?, if_pos size]
        exact pairs
      · intro pair listed
        obtain ⟨entry, inside, found⟩ := exists_of_mem_right (mapM_eq_some_iff.1 pairs) listed
        obtain ⟨q, foundQ, _, rfl⟩ := propertyPair?_eq_some_iff.1 found
        exact (types entry.1 entry.2 q (listedL inside) foundQ).2

/-- A single pair that is owed has to match. -/
theorem pairs_of_one_iff {pair : Ref × Ref} {pairs? : Option (List (Ref × Ref))}
    (owed : pairs? = some [pair]) :
    (∃ new, pairs? = some new ∧ ∀ pair ∈ new, rel pair.1 pair.2) ↔ rel pair.1 pair.2 := by
  rw [owed]
  constructor
  · rintro ⟨new, same, holds⟩
    cases same
    exact holds pair List.mem_cons_self
  · intro holds
    refine ⟨[pair], rfl, fun other listed => ?_⟩
    rw [List.mem_singleton.1 listed]
    exact holds

/-- Cases of two enumerations match when they are the same. -/
theorem pairs_of_enum_iff {conflate : Bool} {kind? : Ref → Option Kind} {l r : OrderedSet String} :
    (∃ new, g.constituentPairs? conflate (.enum l) (.enum r) = some new ∧
      ∀ pair ∈ new, rel pair.1 pair.2) ↔ (Ty.enum l).Alike kind? rel (.enum r) := by
  constructor
  · rintro ⟨new, pairs, _⟩
    simp only [constituentPairs?] at pairs
    split at pairs
    · rename_i agree
      obtain ⟨size, all⟩ := agree
      have inside : ∀ c ∈ l.toList, c ∈ r.toList := fun c inL =>
        of_decide_eq_true (List.all_eq_true.1 all c inL)
      exact .enum fun c =>
        ⟨inside c, mem_of_nodup_of_subset l.nodup inside (Nat.le_of_eq size.symm)⟩
    · cases pairs
  · intro alike
    cases alike with
    | enum cases =>
      have size : l.size = r.size := length_eq_of_nodup l.nodup r.nodup cases
      have all : l.toList.all (fun c => decide (c ∈ r)) = true :=
        List.all_eq_true.2 fun c inL => decide_eq_true ((cases c).1 inL)
      refine ⟨[], ?_, fun pair listed => by cases listed⟩
      simp only [constituentPairs?, if_pos (And.intro size all)]

/-- Two types of one kind other than unions match just when the pairs that they owe each other do. -/
theorem pairs_iff {conflate : Bool} {kind? : Ref → Option Kind} {s t : Ty} (kinds : s.kind = t.kind)
    (plain : s.kind ≠ .union) :
    (∃ new, g.constituentPairs? conflate s t = some new ∧ ∀ pair ∈ new, rel pair.1 pair.2) ↔
      s.Alike kind? rel t := by
  cases s with
  | primitive p =>
    cases Ty.eq_primitive_of_kind kinds.symm
    exact ⟨fun _ => .primitive, fun _ => ⟨[], rfl, fun pair listed => by cases listed⟩⟩
  | array l =>
    cases t with
    | array r =>
      refine (pairs_of_one_iff rfl).trans ⟨.array, fun alike => ?_⟩
      cases alike with
      | array items => exact items
    | primitive q => cases q <;> cases kinds
    | _ => cases kinds
  | map l =>
    cases t with
    | map r =>
      refine (pairs_of_one_iff rfl).trans ⟨.map, fun alike => ?_⟩
      cases alike with
      | map values => exact values
    | primitive q => cases q <;> cases kinds
    | _ => cases kinds
  | enum l =>
    cases t with
    | enum r => exact g.pairs_of_enum_iff
    | primitive q => cases q <;> cases kinds
    | _ => cases kinds
  | union l => exact absurd rfl plain
  | record l =>
    cases t with
    | record r => exact g.pairs_of_record_iff
    | primitive q => cases q <;> cases kinds
    | _ => cases kinds

/-- Two references designate types that owe each other nothing but related pairs. -/
def Owes (conflate : Bool) (rel : Ref → Ref → Prop) (a b : Ref) : Prop :=
  ∃ new, g.obligations? conflate a b = some new ∧ ∀ pair ∈ new, rel pair.1 pair.2

theorem owes_iff {conflate : Bool} : g.Owes conflate rel a b ↔
    ∃ s t, g.type? a = some s ∧ g.type? b = some t ∧ kindsAgree conflate s.kind t.kind = true ∧
      ∃ new, g.constituentPairs? conflate s t = some new ∧ ∀ pair ∈ new, rel pair.1 pair.2 := by
  constructor
  · rintro ⟨new, owed, holds⟩
    obtain ⟨s, left, owed⟩ := Option.bind_eq_some_iff.1 owed
    obtain ⟨t, right, owed⟩ := Option.bind_eq_some_iff.1 owed
    split at owed
    · rename_i agree
      exact ⟨s, t, left, right, agree, new, owed, holds⟩
    · cases owed
  · rintro ⟨s, t, left, right, agree, new, pairs, holds⟩
    refine ⟨new, ?_, holds⟩
    simp only [obligations?, left, right, Option.bind_eq_bind, Option.bind_some]
    rw [if_pos agree, pairs]

/-- Two types of the graph match if the related pairs do. -/
def AlikeAt (rel : Ref → Ref → Prop) (a b : Ref) : Prop :=
  ∃ s t, g.type? a = some s ∧ g.type? b = some t ∧ s.Alike g.kind? rel t

/-- Two references match just when the pairs that their types owe each other do. -/
theorem alikeAt_iff : g.AlikeAt rel a b ↔ g.Owes false rel a b := by
  have agree : ∀ j k : Kind, kindsAgree false j k = true ↔ j = k := by
    intro j k
    simp [kindsAgree]
  have layer : ∀ {s t}, g.type? a = some s → g.type? b = some t → s.kind = t.kind →
      ((∃ new, g.constituentPairs? false s t = some new ∧ ∀ pair ∈ new, rel pair.1 pair.2) ↔
        s.Alike g.kind? rel t) := by
    intro s t left right kinds
    by_cases isUnion : s.kind = .union
    · obtain ⟨l, rfl⟩ := Ty.exists_union_of_kind isUnion
      obtain ⟨r, rfl⟩ := Ty.exists_union_of_kind kinds.symm
      exact g.pairs_of_union_iff left right
    · exact g.pairs_iff kinds isUnion
  rw [owes_iff]
  constructor
  · rintro ⟨s, t, left, right, alike⟩
    have kinds : s.kind = t.kind := by cases alike <;> rfl
    exact ⟨s, t, left, right, (agree _ _).2 kinds, (layer left right kinds).2 alike⟩
  · rintro ⟨s, t, left, right, same, pairs⟩
    exact ⟨s, t, left, right, (layer left right ((agree _ _).1 same)).1 pairs⟩

/-! ## Relations that no comparison refutes -/

/-- A relation between types whose pairs match, given that equal types and related types do. -/
def Matching (rel : Ref → Ref → Prop) : Prop :=
  ∀ a b, rel a b → g.AlikeAt (fun x y => x = y ∨ rel x y) a b

variable {g}

theorem AlikeAt.mono {wider : Ref → Ref → Prop} (widen : ∀ x y, rel x y → wider x y)
    (alike : g.AlikeAt rel a b) : g.AlikeAt wider a b := by
  obtain ⟨s, t, left, right, layer⟩ := alike
  exact ⟨s, t, left, right, layer.mono widen⟩

theorem AlikeAt.symm (alike : g.AlikeAt rel a b) : g.AlikeAt (fun x y => rel y x) b a := by
  obtain ⟨s, t, left, right, layer⟩ := alike
  exact ⟨t, s, right, left, layer.symm⟩

theorem AlikeAt.trans {later : Ref → Ref → Prop} {c : Ref} (one : g.AlikeAt rel a b)
    (two : g.AlikeAt later b c) : g.AlikeAt (fun x z => ∃ y, rel x y ∧ later y z) a c := by
  obtain ⟨s, t, left, right, layer⟩ := one
  obtain ⟨t', u, right', far, layer'⟩ := two
  have same : t = t' := Option.some.inj (right.symm.trans right')
  subst same
  exact ⟨s, u, left, far, layer.trans layer'⟩

theorem Matching.symm (matching : g.Matching rel) : g.Matching fun x y => rel y x := by
  intro a b related
  refine (matching b a related).symm.mono ?_
  rintro x y (same | other)
  · exact .inl same.symm
  · exact .inr other

theorem Matching.or {other : Ref → Ref → Prop} (one : g.Matching rel) (two : g.Matching other) :
    g.Matching fun x y => rel x y ∨ other x y := by
  rintro a b (here | there)
  · exact (one a b here).mono fun x y => Or.imp_right .inl
  · exact (two a b there).mono fun x y => Or.imp_right .inr

/-- Matching in two steps is matching. The steps by themselves are kept, since a constituent may be
equal to its counterpart in one step and only match it in the other. -/
theorem Matching.trans {later : Ref → Ref → Prop} (one : g.Matching rel) (two : g.Matching later) :
    g.Matching fun x z => (rel x z ∨ later x z) ∨ ∃ y, rel x y ∧ later y z := by
  rintro a c (either | ⟨b, here, there⟩)
  · exact ((one.or two) a c either).mono fun x y => Or.imp_right .inl
  · refine ((one a b here).trans (two b c there)).mono ?_
    rintro x z ⟨y, same | first, same' | second⟩
    · exact .inl (same.trans same')
    · rw [same]
      exact .inr (.inl (.inr second))
    · rw [← same']
      exact .inr (.inl (.inl first))
    · exact .inr (.inr ⟨y, first, second⟩)

/-! ## The comparison -/

theorem orderedPair_swap (a b : Ref) : orderedPair (a, b) = orderedPair (b, a) := by
  show (if b < a then (b, a) else (a, b)) = if a < b then (a, b) else (b, a)
  rcases Nat.lt_trichotomy a b with less | same | more
  · rw [if_neg (Nat.lt_asymm less), if_pos less]
  · rw [same]
  · rw [if_pos more, if_neg (Nat.lt_asymm more)]

theorem orderedPair_of_lt {a b : Ref} (less : a < b) : orderedPair (a, b) = (a, b) :=
  if_neg (Nat.lt_asymm less)

theorem orderedPair_eq_or (pair : Ref × Ref) :
    orderedPair pair = pair ∨ orderedPair pair = (pair.2, pair.1) := by
  unfold orderedPair
  split
  · exact .inr rfl
  · exact .inl rfl

theorem orderedPair_le (pair : Ref × Ref) : (orderedPair pair).1 ≤ (orderedPair pair).2 := by
  unfold orderedPair
  split
  · rename_i less
    exact Nat.le_of_lt less
  · rename_i less
    exact Nat.not_lt.1 less

/-- A pair that was compared, or that needs no comparison. -/
def Settled (done : List (Ref × Ref)) (a b : Ref) : Prop := a = b ∨ orderedPair (a, b) ∈ done

theorem settled_of_orderedPair {done : List (Ref × Ref)} {pair : Ref × Ref}
    (same : (orderedPair pair).1 = (orderedPair pair).2) : Settled done pair.1 pair.2 := by
  rcases orderedPair_eq_or pair with plain | swapped
  · rw [plain] at same
    exact .inl same
  · rw [swapped] at same
    exact .inl same.symm

section Comparison

variable {conflate : Bool}

/-- A comparison that succeeds went through pairs that owe each other nothing but what it went
through. -/
theorem exists_settled {done pending : List (Ref × Ref)}
    (matched : g.matchAll conflate done pending = true) :
    ∃ final, (∀ pair ∈ done, pair ∈ final) ∧ (∀ pair ∈ pending, Settled final pair.1 pair.2) ∧
      ∀ pair ∈ final, pair ∈ done ∨ g.Owes conflate (Settled final) pair.1 pair.2 := by
  fun_induction matchAll g conflate done pending with
  | case1 done =>
    exact ⟨done, fun _ listed => listed, ⟨fun _ listed => by (cases listed), fun _ => Or.inl⟩⟩
  | case2 done pair rest next same ih =>
    obtain ⟨final, kept, settled, owes⟩ := ih matched
    refine ⟨final, kept, ?_, owes⟩
    rintro other (_ | ⟨_, later⟩)
    · exact settled_of_orderedPair same
    · exact settled other later
  | case3 => cases matched
  | case4 done pair rest next _ new _ listed ih =>
    obtain ⟨final, kept, settled, owes⟩ := ih matched
    refine ⟨final, kept, ?_, owes⟩
    rintro other (_ | ⟨_, later⟩)
    · exact .inr (kept next listed)
    · exact settled other later
  | case5 done pair rest next _ new owed _ ih =>
    obtain ⟨final, kept, settled, owes⟩ := ih matched
    have first : next ∈ final := kept next List.mem_cons_self
    refine ⟨final, fun other listed => kept other (List.mem_cons_of_mem _ listed), ?_, ?_⟩
    · rintro other (_ | ⟨_, later⟩)
      · exact .inr first
      · exact settled other (List.mem_append_right _ later)
    · intro other listed
      rcases owes other listed with compared | layer
      · rcases List.mem_cons.1 compared with here | before
        · -- what the pair owes was pending and is settled by the rest of the comparison
          rw [here]
          exact .inr ⟨new, owed, fun pair owing => settled pair (List.mem_append_left _ owing)⟩
        · exact .inl before
      · exact .inr layer

/-- A relation that no comparison refutes: it has no order, and what its pairs owe each other, the one
with the smaller number first, is equal or related. -/
structure Paying (g : Graph) (conflate : Bool) (rel : Ref → Ref → Prop) : Prop where
  symm : ∀ a b, rel a b → rel b a
  owes : ∀ a b, rel a b → a < b → g.Owes conflate (fun x y => x = y ∨ rel x y) a b

theorem Paying.owes_orderedPair (paying : g.Paying conflate rel) {pair : Ref × Ref}
    (related : pair.1 = pair.2 ∨ rel pair.1 pair.2)
    (differ : (orderedPair pair).1 ≠ (orderedPair pair).2) :
    g.Owes conflate (fun x y => x = y ∨ rel x y) (orderedPair pair).1 (orderedPair pair).2 := by
  have less := Nat.lt_of_le_of_ne (orderedPair_le pair) differ
  rcases orderedPair_eq_or pair with plain | swapped
  · rw [plain] at differ less ⊢
    exact paying.owes _ _ (related.resolve_left differ) less
  · rw [swapped] at differ less ⊢
    exact paying.owes _ _ (paying.symm _ _ (related.resolve_left (Ne.symm differ))) less

/-- No pair that such a relation holds of makes a comparison fail. -/
theorem Paying.matchAll (paying : g.Paying conflate rel) {done pending : List (Ref × Ref)}
    (related : ∀ pair ∈ pending, pair.1 = pair.2 ∨ rel pair.1 pair.2) :
    g.matchAll conflate done pending = true := by
  fun_induction Graph.matchAll g conflate done pending with
  | case1 => rfl
  | case2 done pair rest next same ih =>
    exact ih fun other later => related other (List.mem_cons_of_mem _ later)
  | case3 done pair rest next differ unowed =>
    obtain ⟨new, owed, _⟩ := paying.owes_orderedPair (related pair List.mem_cons_self) differ
    rw [owed] at unowed
    cases unowed
  | case4 done pair rest next _ new _ _ ih =>
    exact ih fun other later => related other (List.mem_cons_of_mem _ later)
  | case5 done pair rest next differ new owed _ ih =>
    obtain ⟨new', owed', holds⟩ := paying.owes_orderedPair (related pair List.mem_cons_self) differ
    have same : new' = new := Option.some.inj (owed'.symm.trans owed)
    subst same
    apply ih
    intro other listed
    rcases List.mem_append.1 listed with owing | later
    · exact holds other owing
    · exact related other (List.mem_cons_of_mem _ later)

/-- Two types match just when they are equal or some relation that no comparison refutes holds of them. -/
theorem sameShape_iff_paying :
    g.sameShape conflate a b = true ↔ a = b ∨ ∃ rel, g.Paying conflate rel ∧ rel a b := by
  constructor
  · intro same
    obtain ⟨final, _, settled, owes⟩ := exists_settled same
    rcases settled (a, b) List.mem_cons_self with equal | listed
    · exact .inl equal
    · refine .inr ⟨fun x y => orderedPair (x, y) ∈ final, ⟨?_, ?_⟩, listed⟩
      · intro x y compared
        rw [orderedPair_swap]
        exact compared
      · intro x y compared less
        rw [orderedPair_of_lt less] at compared
        exact (owes _ compared).resolve_left List.not_mem_nil
  · rintro (equal | ⟨rel, paying, related⟩)
    · -- a type is compared with itself only to be left out of the comparison
      have nothing : g.Paying conflate fun _ _ => False :=
        ⟨fun _ _ absurd => absurd.elim, fun _ _ absurd => absurd.elim⟩
      refine nothing.matchAll ?_
      rintro pair (_ | ⟨_, ⟨⟩⟩)
      exact .inl equal
    · refine paying.matchAll ?_
      rintro pair (_ | ⟨_, ⟨⟩⟩)
      exact .inr related

theorem sameShape_refl (a : Ref) : g.sameShape conflate a a = true := sameShape_iff_paying.2 (.inl rfl)

/-- A comparison does not see which of two types comes first, for it orders them by their numbers. -/
theorem sameShape_comm (a b : Ref) : g.sameShape conflate a b = g.sameShape conflate b a := by
  rw [Bool.eq_iff_iff, sameShape_iff_paying, sameShape_iff_paying, eq_comm]
  refine or_congr_right (exists_congr fun rel => and_congr_right fun paying => ?_)
  exact ⟨paying.symm a b, paying.symm b a⟩

theorem sameShape_symm (same : g.sameShape conflate a b = true) : g.sameShape conflate b a = true :=
  (sameShape_comm b a).trans same

end Comparison

/-- What a relation pays off, if integers and doubles are kept apart, is a matching relation, apart from
what is equal anyway. -/
theorem Paying.matching (paying : g.Paying false rel) : g.Matching fun x y => rel x y ∧ x ≠ y := by
  have apart : ∀ x y, x = y ∨ rel x y → x = y ∨ (rel x y ∧ x ≠ y) := by
    intro x y related
    by_cases equal : x = y
    · exact .inl equal
    · exact .inr ⟨related.resolve_left equal, equal⟩
  rintro a b ⟨related, differ⟩
  rcases Nat.lt_or_gt_of_ne differ with less | more
  · exact (g.alikeAt_iff.2 (paying.owes a b related less)).mono apart
  · refine (g.alikeAt_iff.2 (paying.owes b a (paying.symm a b related) more)).symm.mono ?_
    exact fun x y turned => apart x y (turned.imp Eq.symm (paying.symm y x))

/-- A matching relation, taken both ways, is one that no comparison refutes. -/
theorem Matching.paying (matching : g.Matching rel) :
    g.Paying false fun x y => rel x y ∨ rel y x where
  symm := fun _ _ => Or.symm
  owes := fun a b related _ => g.alikeAt_iff.1 ((matching.or matching.symm) a b related)

/-- Two types have one shape just when they are equal or some matching relation holds of them. -/
theorem sameShape_iff :
    g.sameShape false a b = true ↔ a = b ∨ ∃ rel, g.Matching rel ∧ rel a b := by
  rw [sameShape_iff_paying]
  constructor
  · rintro (equal | ⟨rel, paying, related⟩)
    · exact .inl equal
    · by_cases equal : a = b
      · exact .inl equal
      · exact .inr ⟨_, paying.matching, related, equal⟩
  · rintro (equal | ⟨rel, matching, related⟩)
    · exact .inl equal
    · exact .inr ⟨_, matching.paying, .inl related⟩

theorem sameShape_trans {c : Ref} (one : g.sameShape false a b = true)
    (two : g.sameShape false b c = true) : g.sameShape false a c = true := by
  rcases sameShape_iff.1 one with equal | ⟨rel, matching, related⟩
  · rw [equal]
    exact two
  · rcases sameShape_iff.1 two with equal | ⟨later, matching', related'⟩
    · rw [← equal]
      exact one
    · exact sameShape_iff.2 (.inr ⟨_, matching.trans matching', .inr ⟨b, related, related'⟩⟩)

/-- Types of one shape match layer by layer. -/
theorem alikeAt_of_sameShape (same : g.sameShape false a b = true) :
    a = b ∨ g.AlikeAt (fun x y => g.sameShape false x y = true) a b := by
  rcases sameShape_iff.1 same with equal | ⟨rel, matching, related⟩
  · exact .inl equal
  · refine .inr ((matching a b related).mono fun x y inner => sameShape_iff.2 ?_)
    exact inner.imp_right fun later => ⟨rel, matching, later⟩

/-- Records of one shape have the same names, and under each of them types of one shape. -/
theorem records_of_sameShape {k l : Record} (typeK : g.type? a = some (.record k))
    (typeL : g.type? b = some (.record l)) (same : g.sameShape false a b = true) :
    (∀ name, name ∈ k.properties.keys ↔ name ∈ l.properties.keys) ∧
      ∀ name p q, k.property? name = some p → l.property? name = some q →
        g.sameShape false p.type q.type = true := by
  rcases alikeAt_of_sameShape same with equal | ⟨s, t, typeA, typeB, alike⟩
  · subst equal
    cases typeK.symm.trans typeL
    refine ⟨fun _ => Iff.rfl, fun name p q foundP foundQ => ?_⟩
    cases foundP.symm.trans foundQ
    exact sameShape_refl _
  · cases typeK.symm.trans typeA
    cases typeL.symm.trans typeB
    cases alike with
    | record names types =>
      exact ⟨names, fun name p q foundP foundQ => (types name p q foundP foundQ).2⟩

theorem size_of_sameShape {k l : Record} (typeK : g.type? a = some (.record k))
    (typeL : g.type? b = some (.record l)) (same : g.sameShape false a b = true) : k.size = l.size := by
  have names := (records_of_sameShape typeK typeL same).1
  have lengths := length_eq_of_nodup k.properties.nodup l.properties.nodup names
  rw [List.length_map, List.length_map] at lengths
  exact lengths

end Graph

end SchemaGraph
