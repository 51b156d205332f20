import Mathlib
import SchemaGraph.Proofs.Graph.Matching
import SchemaGraph.Proofs.Graph.Traversal
import SchemaGraph.Proofs.Node
import SchemaGraph.Proofs.Similarity.Search
/-!
# Proofs.Similarity.Separation -- when records of one shape end up apart

A record that has the shape of a prototype joins, and having one shape is an equivalence. So once a
clique takes the first record of a shape in, it takes in every later one (`Clique.grow_pair`). What
can still set two of them apart is the growing list of prototypes: a clique passes the earlier one
over, gains a prototype, and by it takes in a later record of the same shape. That is the only way
(`Graph.together_iff_not_passedOver`), and it does happen (`Graph.shape_is_split`).

Records are compared as samples by the cases of their properties, so a comparison takes unions apart. That
ends on every type where unions do (`Graph.takenApart_iff`).
-/

namespace SchemaGraph

set_option autoImplicit false

/-- Of two elements of a list, one comes before the other. -/
theorem pair_sublist_or {α : Type} {xs : List α} {a b : α} (inA : a ∈ xs) (inB : b ∈ xs)
    (differ : a ≠ b) : [a, b].Sublist xs ∨ [b, a].Sublist xs := by
  induction xs with
  | nil => cases inA
  | cons x rest ih =>
    rcases List.mem_cons.1 inA with hereA | laterA
    · rcases List.mem_cons.1 inB with hereB | laterB
      · exact absurd (hereA.trans hereB.symm) differ
      · rw [hereA]
        exact .inl ((List.singleton_sublist.2 laterB).cons_cons x)
    · rcases List.mem_cons.1 inB with hereB | laterB
      · rw [hereB]
        exact .inr ((List.singleton_sublist.2 laterA).cons_cons x)
      · exact (ih laterA laterB).imp (fun before => before.cons x) fun before => before.cons x

/-- Lists that share an element are equal, if no element is listed twice. -/
theorem eq_of_mem_disjoint {α : Type} {lists : List (List α)} (distinct : lists.flatten.Nodup)
    {xs ys : List α} (inX : xs ∈ lists) (inY : ys ∈ lists) {r : α} (here : r ∈ xs)
    (there : r ∈ ys) : xs = ys := by
  have apart := (List.pairwise_flatten.1 distinct).2
  have equal : lists.Pairwise fun xs ys => ∀ r, r ∈ xs → r ∈ ys → xs = ys :=
    apart.imp fun differ r here there => absurd rfl (differ r here r there)
  have turned : lists.Pairwise (flip fun xs ys => ∀ r, r ∈ xs → r ∈ ys → xs = ys) :=
    apart.imp fun differ r there here => absurd rfl (differ r here r there)
  exact equal.forall_of_forall_of_flip (fun _ _ _ _ _ => rfl) turned inX inY r here there

namespace Clique

variable {g : Graph} {onlySame : Bool} {clique final : Clique} {candidates left : List Candidate}
  {c d : Candidate}

/-! ## Growing a clique -/

theorem left_sublist (grown : grow g onlySame clique candidates = .ok (final, left)) :
    left.Sublist candidates := by
  induction candidates generalizing clique left with
  | nil =>
    cases grown
    exact .slnil
  | cons candidate rest ih =>
    rcases grow_cons grown with ⟨larger, _, inner⟩ | ⟨_, others, rfl, inner⟩
    · exact (ih inner).cons candidate
    · exact (ih inner).cons_cons candidate

theorem joined_or_left (grown : grow g onlySame clique candidates = .ok (final, left))
    (listed : d ∈ candidates) : d.1 ∈ final.members ∨ d ∈ left := by
  induction candidates generalizing clique left with
  | nil => cases listed
  | cons candidate rest ih =>
    rcases grow_cons grown with ⟨larger, joined, inner⟩ | ⟨_, others, rfl, inner⟩
    · rcases List.mem_cons.1 listed with here | later
      · refine .inl ((prefix_grow inner).subset ?_)
        rw [(join?_eq_some joined).1, here]
        exact List.mem_append_right _ List.mem_cons_self
      · exact ih inner later
    · rcases List.mem_cons.1 listed with here | later
      · rw [here]
        exact .inr List.mem_cons_self
      · exact (ih inner later).imp_right (List.mem_cons_of_mem _)

/-- A clique keeps its prototypes, and no other than the candidate that joins becomes one. -/
theorem prototypes_of_join? {larger : Clique} {candidate : Candidate}
    (joined : join? g onlySame clique candidate = .ok (some larger)) :
    (∀ anchor ∈ clique.prototypes, anchor ∈ larger.prototypes) ∧
      ∀ anchor ∈ larger.prototypes, anchor ∈ clique.prototypes ∨ anchor = candidate := by
  obtain ⟨_, ⟨_, _, _, kept⟩ | ⟨_, _, _, grew⟩⟩ := join?_eq_some joined
  · rw [kept]
    exact ⟨fun _ listed => listed, fun _ => .inl⟩
  · rw [grew]
    refine ⟨fun _ listed => List.mem_append_left _ listed, fun anchor listed => ?_⟩
    exact (List.mem_append.1 listed).imp_right List.mem_singleton.1

/-- Prototypes stay members. -/
theorem inside_of_join? {larger : Clique} {candidate : Candidate}
    (inside : ∀ anchor ∈ clique.prototypes, anchor.1 ∈ clique.members)
    (joined : join? g onlySame clique candidate = .ok (some larger)) :
    ∀ anchor ∈ larger.prototypes, anchor.1 ∈ larger.members := by
  intro anchor listed
  rw [(join?_eq_some joined).1]
  rcases (prototypes_of_join? joined).2 anchor listed with old | rfl
  · exact List.mem_append_left _ (inside anchor old)
  · exact List.mem_append_right _ List.mem_cons_self

/-- A candidate of the shape of a prototype joins. -/
theorem joins_of_sameShape {anchor : Candidate}
    (grown : grow g onlySame clique candidates = .ok (final, left))
    (listed : anchor ∈ clique.prototypes) (member : d ∈ candidates)
    (same : g.sameShape false anchor.1 d.1 = true) : d.1 ∈ final.members := by
  induction candidates generalizing clique left with
  | nil => cases member
  | cons candidate rest ih =>
    rcases grow_cons grown with ⟨larger, joined, inner⟩ | ⟨passed, others, rfl, inner⟩
    · rcases List.mem_cons.1 member with here | later
      · refine (prefix_grow inner).subset ?_
        rw [(join?_eq_some joined).1, here]
        exact List.mem_append_right _ List.mem_cons_self
      · exact ih inner ((prototypes_of_join? joined).1 anchor listed) later
    · rcases List.mem_cons.1 member with here | later
      · rw [here] at same
        exact absurd same (join?_eq_none passed anchor listed).1
      · exact ih inner listed later

/-- No prototype has the shape of the candidate, and prototypes are members. -/
structure Misses (g : Graph) (c : Candidate) (clique : Clique) : Prop where
  inside : ∀ anchor ∈ clique.prototypes, anchor.1 ∈ clique.members
  unlike : ∀ anchor ∈ clique.prototypes, g.sameShape false c.1 anchor.1 ≠ true

/-- A candidate of another shape leaves it so, even if it becomes a prototype. -/
theorem Misses.join (misses : Misses g c clique) {larger : Clique} {candidate : Candidate}
    (joined : join? g onlySame clique candidate = .ok (some larger))
    (other : g.sameShape false c.1 candidate.1 ≠ true) : Misses g c larger where
  inside := inside_of_join? misses.inside joined
  unlike anchor listed := by
    rcases (prototypes_of_join? joined).2 anchor listed with old | rfl
    · exact misses.unlike anchor old
    · exact other

/-- A candidate of the shape can join only by a prototype that it may share a shape with. -/
theorem Misses.exists_anchor (misses : Misses g c clique) {larger : Clique} {candidate : Candidate}
    (joined : join? g onlySame clique candidate = .ok (some larger))
    (same : g.sameShape false c.1 candidate.1 = true) :
    ∃ anchor ∈ clique.prototypes, g.canCombine onlySame anchor.2 candidate.2 = .ok true := by
  obtain ⟨_, ⟨anchor, listed, alike, _⟩ | ⟨anchor, listed, combines, _⟩⟩ := join?_eq_some joined
  · have toAnchor := Graph.sameShape_trans same (Graph.sameShape_symm alike)
    exact absurd toAnchor (misses.unlike anchor listed)
  · exact ⟨anchor, listed, combines⟩

/-- The member `e` has the shape of `c`, and came after a member that it may share a shape with by the
standards of noisy samples. -/
structure Draws (g : Graph) (onlySame : Bool) (members : List Ref) (c p e : Candidate) : Prop where
  order : [p.1, e.1].Sublist members
  same : g.sameShape false c.1 e.1 = true
  combines : g.canCombine onlySame p.2 e.2 = .ok true

/-- A clique without a prototype of the shape of `c` takes the first candidate of that shape in by a
prototype of another shape. -/
theorem exists_draws (grown : grow g onlySame clique candidates = .ok (final, left))
    (misses : Misses g c clique) (same : g.sameShape false c.1 d.1 = true)
    (fresh : d.1 ∉ clique.members) (taken : d.1 ∈ final.members) :
    ∃ p e, Draws g onlySame final.members c p e ∧ e ∈ candidates ∧
      (p ∈ clique.prototypes ∨ p ∈ candidates) := by
  induction candidates generalizing clique left with
  | nil =>
    cases grown
    exact absurd taken fresh
  | cons candidate rest ih =>
    rcases grow_cons grown with ⟨larger, joined, inner⟩ | ⟨_, others, rfl, inner⟩
    · have members := (join?_eq_some joined).1
      by_cases shape : g.sameShape false c.1 candidate.1 = true
      · obtain ⟨anchor, listed, combines⟩ := misses.exists_anchor joined shape
        refine ⟨anchor, candidate, ⟨?_, shape, combines⟩, List.mem_cons_self, .inl listed⟩
        have before : [anchor.1, candidate.1].Sublist larger.members := by
          rw [members]
          exact (List.singleton_sublist.2 (misses.inside anchor listed)).append (.refl _)
        exact before.trans (prefix_grow inner).sublist
      · have other : d.1 ≠ candidate.1 := fun equal => shape (equal ▸ same)
        have stillFresh : d.1 ∉ larger.members := by
          rw [members, List.mem_append, List.mem_singleton]
          exact not_or.2 ⟨fresh, other⟩
        obtain ⟨p, e, draws, inRest, source⟩ := ih inner (misses.join joined shape) stillFresh
        refine ⟨p, e, draws, List.mem_cons_of_mem _ inRest, ?_⟩
        rcases source with prototype | later
        · rcases (prototypes_of_join? joined).2 p prototype with old | rfl
          · exact .inl old
          · exact .inr List.mem_cons_self
        · exact .inr (List.mem_cons_of_mem _ later)
    · obtain ⟨p, e, draws, inRest, source⟩ := ih inner misses fresh
      exact ⟨p, e, draws, List.mem_cons_of_mem _ inRest, source.imp_right (List.mem_cons_of_mem _)⟩

/-- How a clique can part two candidates: what drew the shape of `c` in came after the turn of `c`, or
did not match `c` itself. -/
structure Parts (g : Graph) (onlySame : Bool) (candidates : List Candidate) (members : List Ref)
    (c p e : Candidate) : Prop where
  draws : Draws g onlySame members c p e
  listed : p ∈ candidates
  later : [c, e].Sublist candidates
  missed : [c, p].Sublist candidates ∨ g.canCombine onlySame p.2 c.2 = .ok false

theorem Parts.mono {members : List Ref} {p e : Candidate} {more : List Candidate}
    (parts : Parts g onlySame candidates members c p e) (sub : candidates.Sublist more) :
    Parts g onlySame more members c p e :=
  ⟨parts.draws, sub.subset parts.listed, parts.later.trans sub,
    parts.missed.imp_left fun before => before.trans sub⟩

/-- What may become of two candidates when a clique has grown: both joined, both are left, or the later
one joined after the earlier one was passed over. -/
inductive Fate (g : Graph) (onlySame : Bool) (turns left : List Candidate) (members : List Ref)
    (c d : Candidate) : Prop
  | together : c.1 ∈ members → d.1 ∈ members → Fate g onlySame turns left members c d
  | left : [c, d].Sublist left → Fate g onlySame turns left members c d
  | parted {p e : Candidate} : c ∈ left → d.1 ∈ members → Parts g onlySame turns members c p e →
      Fate g onlySame turns left members c d

theorem Fate.mono {turns more : List Candidate} {members : List Ref} {others : List Candidate}
    (fate : Fate g onlySame turns left members c d) (sub : turns.Sublist more)
    (longer : left.Sublist others) : Fate g onlySame more others members c d := by
  cases fate with
  | together inC inD => exact .together inC inD
  | left pair => exact .left (pair.trans longer)
  | parted out taken parts => exact .parted (longer.subset out) taken (parts.mono sub)

/-- If the earlier candidate joins, the prototype it matches, or it itself, takes the later one in. -/
theorem fate_of_joined {larger : Clique} {turns : List Candidate}
    (joined : join? g onlySame clique c = .ok (some larger))
    (grown : grow g onlySame larger candidates = .ok (final, left)) (listed : d ∈ candidates)
    (same : g.sameShape false c.1 d.1 = true) : Fate g onlySame turns left final.members c d := by
  refine .together ((prefix_grow grown).subset ?_) ?_
  · rw [(join?_eq_some joined).1]
    exact List.mem_append_right _ List.mem_cons_self
  · obtain ⟨_, ⟨anchor, old, alike, kept⟩ | ⟨_, _, _, grew⟩⟩ := join?_eq_some joined
    · rw [← kept] at old
      exact joins_of_sameShape grown old listed (Graph.sameShape_trans alike same)
    · have prototype : c ∈ larger.prototypes := by
        rw [grew]
        exact List.mem_append_right _ List.mem_cons_self
      exact joins_of_sameShape grown prototype listed same

/-- If the earlier candidate is passed over, no prototype has its shape, and only one that it does not
match or a later one can take the other in. -/
theorem fate_of_passed (passed : join? g onlySame clique c = .ok none)
    (grown : grow g onlySame clique candidates = .ok (final, left)) (listed : d ∈ candidates)
    (inside : ∀ anchor ∈ clique.prototypes, anchor.1 ∈ clique.members)
    (fresh : d.1 ∉ clique.members) (same : g.sameShape false c.1 d.1 = true) :
    Fate g onlySame (clique.prototypes ++ c :: candidates) (c :: left) final.members c d := by
  rcases joined_or_left grown listed with taken | out
  · have misses : Misses g c clique :=
      ⟨inside, fun anchor old turned =>
        (join?_eq_none passed anchor old).1 (Graph.sameShape_symm turned)⟩
    obtain ⟨p, e, draws, inRest, source⟩ := exists_draws grown misses same fresh taken
    have turn : ∀ {x : Candidate}, x ∈ candidates →
        [c, x].Sublist (clique.prototypes ++ c :: candidates) := fun inRest =>
      ((List.singleton_sublist.2 inRest).cons_cons c).trans (List.sublist_append_right _ _)
    refine .parted List.mem_cons_self taken ⟨draws, ?_, turn inRest, ?_⟩
    · exact List.mem_append.2 (source.imp_right (List.mem_cons_of_mem _))
    · rcases source with old | later
      · exact .inr (join?_eq_none passed p old).2
      · exact .inl (turn later)
  · exact .left ((List.singleton_sublist.2 out).cons_cons c)

theorem grow_pair (grown : grow g onlySame clique candidates = .ok (final, left))
    (inside : ∀ anchor ∈ clique.prototypes, anchor.1 ∈ clique.members)
    (distinct : (clique.members ++ candidates.map Prod.fst).Nodup)
    (pair : [c, d].Sublist candidates) (same : g.sameShape false c.1 d.1 = true) :
    Fate g onlySame (clique.prototypes ++ candidates) left final.members c d := by
  induction candidates generalizing clique left with
  | nil => cases pair
  | cons candidate rest ih =>
    rcases grow_cons grown with ⟨larger, joined, inner⟩ | ⟨passed, others, rfl, inner⟩
    · cases pair with
      | cons _ later =>
        have members := (join?_eq_some joined).1
        have distinctLarger : (larger.members ++ rest.map Prod.fst).Nodup := by
          rw [members, List.append_assoc]
          exact distinct
        have turns : (larger.prototypes ++ rest).Sublist (clique.prototypes ++ candidate :: rest) := by
          obtain ⟨_, ⟨_, _, _, kept⟩ | ⟨_, _, _, grew⟩⟩ := join?_eq_some joined
          · rw [kept]
            exact (List.sublist_cons_self _ _).append_left _
          · rw [grew, List.append_assoc]
            exact .refl _
        exact (ih inner (inside_of_join? inside joined) distinctLarger later).mono turns (.refl _)
      | cons_cons _ later =>
        exact fate_of_joined joined inner (List.singleton_sublist.1 later) same
    · cases pair with
      | cons _ later =>
        have skip : (clique.members ++ rest.map Prod.fst).Sublist
            (clique.members ++ (candidate :: rest).map Prod.fst) :=
          (List.sublist_cons_self _ _).append_left _
        have turns : (clique.prototypes ++ rest).Sublist (clique.prototypes ++ candidate :: rest) :=
          (List.sublist_cons_self _ _).append_left _
        exact (ih inner inside (distinct.sublist skip) later).mono turns (List.sublist_cons_self _ _)
      | cons_cons _ later =>
        have listed := List.singleton_sublist.1 later
        have fresh : d.1 ∉ clique.members := by
          intro early
          have again : d.1 ∈ (c :: rest).map Prod.fst :=
            List.mem_map.2 ⟨d, List.mem_cons_of_mem _ listed, rfl⟩
          exact List.disjoint_of_nodup_append distinct early again
        exact fate_of_passed passed inner listed inside fresh same

/-! ## Searching -/

/-- A clique took the later one of two candidates in and not the earlier one. -/
structure Overtakes (g : Graph) (onlySame : Bool) (candidates : List Candidate) (members : List Ref)
    (c d : Candidate) : Prop where
  out : c.1 ∉ members
  taken : d.1 ∈ members
  seeded : ∃ seed, members.head? = some seed.1 ∧ [seed, c].Sublist candidates
  parts : ∃ p e, Parts g onlySame candidates members c p e

theorem Overtakes.mono {members : List Ref} {more : List Candidate}
    (overtakes : Overtakes g onlySame candidates members c d) (sub : candidates.Sublist more) :
    Overtakes g onlySame more members c d where
  out := overtakes.out
  taken := overtakes.taken
  seeded := by
    obtain ⟨seed, first, before⟩ := overtakes.seeded
    exact ⟨seed, first, before.trans sub⟩
  parts := by
    obtain ⟨p, e, parts⟩ := overtakes.parts
    exact ⟨p, e, parts.mono sub⟩

theorem head?_of_grow {seed : Candidate} (grown : grow g onlySame (ofSeed seed) candidates =
    .ok (clique, left)) : clique.members.head? = some seed.1 := by
  obtain ⟨tail, whole⟩ : [seed.1] <+: clique.members := prefix_grow grown
  rw [← whole]
  rfl

/-- A clique that a candidate joined has two members at least. -/
theorem several_of_joined {seed : Candidate}
    (grown : grow g onlySame (ofSeed seed) candidates = .ok (clique, left))
    (distinct : ((seed :: candidates).map Prod.fst).Nodup) (listed : d ∈ candidates)
    (joined : d.1 ∈ clique.members) : 1 < clique.members.length := by
  obtain ⟨tail, whole⟩ : [seed.1] <+: clique.members := prefix_grow grown
  have other : d.1 ≠ seed.1 := by
    intro equal
    have twice : seed.1 ∈ candidates.map Prod.fst := List.mem_map.2 ⟨d, listed, equal⟩
    exact (List.nodup_cons.1 distinct).1 twice
  rw [← whole] at joined ⊢
  have inTail := (List.mem_append.1 joined).resolve_left fun here =>
    other (List.mem_singleton.1 here)
  have nonempty := List.length_pos_of_mem inTail
  rw [List.length_append, List.length_singleton]
  omega

/-- Two candidates of one shape end up in one clique, unless one took the later in after it had passed
the earlier over. -/
theorem search_pair {cliques : List (List Ref)}
    (found : search g onlySame candidates = .ok cliques) (distinct : (candidates.map Prod.fst).Nodup)
    (pair : [c, d].Sublist candidates) (same : g.sameShape false c.1 d.1 = true) :
    (∃ members ∈ cliques, c.1 ∈ members ∧ d.1 ∈ members) ∨
      ∃ members ∈ cliques, Overtakes g onlySame candidates members c d := by
  fun_induction search g onlySame candidates generalizing cliques with
  | case1 => cases pair
  | case2 => cases found
  | case3 seed rest clique left grown ih =>
    obtain ⟨others, searched, rfl⟩ := others_of_search found
    have emitted : ∀ {x : Candidate}, x ∈ rest → x.1 ∈ clique.members → clique.members ∈
        if 1 < clique.members.length then clique.members :: others else others := by
      intro x inRest joined
      rw [if_pos (several_of_joined grown distinct inRest joined)]
      exact List.mem_cons_self
    have kept : ∀ members ∈ others, members ∈
        if 1 < clique.members.length then clique.members :: others else others := by
      intro members listed
      split
      · exact List.mem_cons_of_mem _ listed
      · exact listed
    cases pair with
    | cons_cons _ later =>
      have listed := List.singleton_sublist.1 later
      have taken := joins_of_sameShape grown List.mem_cons_self listed same
      refine .inl ⟨clique.members, emitted listed taken, ?_, taken⟩
      exact List.mem_of_mem_head? (head?_of_grow grown)
    | cons _ later =>
      have inside : ∀ anchor ∈ (ofSeed seed).prototypes, anchor.1 ∈ (ofSeed seed).members := by
        rintro anchor (_ | ⟨_, ⟨⟩⟩)
        exact List.mem_cons_self
      have listedC : c ∈ rest := later.subset List.mem_cons_self
      have listedD : d ∈ rest := later.subset (List.mem_cons_of_mem _ List.mem_cons_self)
      cases grow_pair grown inside distinct later same with
      | together inC inD => exact .inl ⟨clique.members, emitted listedC inC, inC, inD⟩
      | left both =>
        have sub := left_sublist grown
        have distinctLeft : (left.map Prod.fst).Nodup :=
          (List.nodup_cons.1 distinct).2.sublist (sub.map Prod.fst)
        rcases ih searched distinctLeft both with
          ⟨members, listed, both⟩ | ⟨members, listed, overtakes⟩
        · exact .inl ⟨members, kept members listed, both⟩
        · exact .inr ⟨members, kept members listed, overtakes.mono (sub.cons seed)⟩
      | @parted p e out taken parts =>
        refine .inr ⟨clique.members, emitted listedD taken, ?_, taken, ?_, p, e, parts⟩
        · have dealt : (clique.members ++ left.map Prod.fst).Nodup :=
            (grow_perm grown).nodup_iff.2 distinct
          intro inC
          exact List.disjoint_of_nodup_append dealt inC (List.mem_map.2 ⟨c, out, rfl⟩)
        · exact ⟨seed, head?_of_grow grown, (List.singleton_sublist.2 listedC).cons_cons seed⟩

end Clique

namespace Graph

/-! ## A shape that is split -/

/-- Four records of text: the first and the third overlap in three properties of four, the third and the
second do, and the fourth has the shape of the second. -/
def overtaken : Graph :=
  ⟨#[⟨.primitive .string, .empty⟩,
      .required [("a", 0), ("b", 0), ("c", 0), ("d", 0)] false,
      .required [("c", 0), ("d", 0), ("e", 0), ("f", 0)] false,
      .required [("b", 0), ("c", 0), ("d", 0), ("e", 0)] false,
      .required [("c", 0), ("d", 0), ("e", 0), ("f", 0)] false],
    .ofList [("S", 1), ("C", 2), ("X", 3), ("D", 4)], firstFault?_eq_none_iff.1 (by decide +kernel)⟩

theorem similarityCliques_overtaken : overtaken.similarityCliques ⟨false, false⟩ = .ok [[1, 3, 4]] := by
  refine overtaken.similarityCliques_eq (by cbv) ?_
  rw [Clique.search_cons]
  cbv

theorem eligible_overtaken : overtaken.Eligible ⟨false, false⟩ 2 ∧ overtaken.Eligible ⟨false, false⟩ 4 := by
  have reached : overtaken.reachable = [1, 0, 2, 3, 4] := by cbv
  refine ⟨⟨?_, _, rfl, .inr rfl⟩, ?_, _, rfl, .inr rfl⟩
  · rw [reached]
    decide
  · rw [reached]
    decide

/-- Records of one shape need not end up in one clique: here the second record is passed over, the third
becomes a prototype, and the fourth joins by it. -/
theorem shape_is_split :
    ¬ ∀ (g : Graph) (options : SearchOptions) (c d : Ref), g.UnionsEnd → g.Eligible options c →
      g.Eligible options d → c ≠ d → g.sameShape false c d = true →
      ∃ cliques, g.similarityCliques options = .ok cliques ∧
        ∃ clique ∈ cliques, c ∈ clique ∧ d ∈ clique := by
  intro together
  have ends : overtaken.UnionsEnd := overtaken.unionsEnd_of_lt (by decide)
  have same : overtaken.sameShape false 2 4 = true := by cbv
  obtain ⟨first, second⟩ := eligible_overtaken
  obtain ⟨cliques, found, clique, listed, inC, _⟩ :=
    together overtaken ⟨false, false⟩ 2 4 ends first second (by decide) same
  rw [similarityCliques_overtaken] at found
  cases found
  cases List.mem_singleton.1 listed
  exact absurd inC (by decide)

/-! ## What splits a shape -/

variable (g : Graph) {options : SearchOptions} {c d : Ref}

/-- Two references to records that may be samples of one shape. -/
def Samples (onlySame : Bool) (p e : Ref) : Prop :=
  ∃ a b, g.record? p = some a ∧ g.record? e = some b ∧ g.canCombine onlySame a b = .ok true

/-- A clique passed the record `c` over and took `d` in, which is visited later: its seed comes before
`c`, and a member `p` that came after `c`, or that `c` is no sample with, was followed by a member `e` of
the shape of `c` that is. -/
structure PassedOver (onlySame : Bool) (clique : List Ref) (c d : Ref) : Prop where
  out : c ∉ clique
  taken : d ∈ clique
  later : [c, d].Sublist g.reachable
  seeded : ∃ seed, clique.head? = some seed ∧ [seed, c].Sublist g.reachable
  drawn : ∃ p e, [p, e].Sublist clique ∧ [c, e].Sublist g.reachable ∧
    g.sameShape false c e = true ∧ g.Samples onlySame p e ∧
    ([c, p].Sublist g.reachable ∨ ¬ g.Samples onlySame p c)

variable {g}

theorem passedOver_of_overtakes {candidates : List Candidate} {members : List Ref} {c d : Candidate}
    (overtakes : Clique.Overtakes g options.onlySame candidates members c d)
    (sub : (candidates.map Prod.fst).Sublist g.reachable)
    (records : ∀ entry ∈ candidates, g.record? entry.1 = some entry.2)
    (pair : [c, d].Sublist candidates) : g.PassedOver options.onlySame members c.1 d.1 := by
  have order : ∀ {x y : Candidate}, [x, y].Sublist candidates → [x.1, y.1].Sublist g.reachable :=
    fun before => (before.map Prod.fst).trans sub
  obtain ⟨p, e, parts⟩ := overtakes.parts
  have inE : e ∈ candidates := parts.later.subset (List.mem_cons_of_mem _ List.mem_cons_self)
  have samples : g.Samples options.onlySame p.1 e.1 :=
    ⟨p.2, e.2, records p parts.listed, records e inE, parts.draws.combines⟩
  refine ⟨overtakes.out, overtakes.taken, order pair, ?_, p.1, e.1, parts.draws.order,
    order parts.later, parts.draws.same, samples, ?_⟩
  · obtain ⟨seed, head, before⟩ := overtakes.seeded
    exact ⟨seed.1, head, order before⟩
  · refine parts.missed.imp order ?_
    rintro fails ⟨a, b, recordP, recordC, combines⟩
    have inC : c ∈ candidates := pair.subset List.mem_cons_self
    have sameP : a = p.2 := Option.some.inj (recordP.symm.trans (records p parts.listed))
    have sameC : b = c.2 := Option.some.inj (recordC.symm.trans (records c inC))
    rw [sameP, sameC, fails] at combines
    cases combines

/-- Where unions end, so that every type can be taken apart for a comparison, two eligible records of one
shape are in one clique just when no clique passed the one over and took the other in. -/
theorem together_iff_not_passedOver (ends : g.UnionsEnd) (first : g.Eligible options c)
    (second : g.Eligible options d) (differ : c ≠ d) (same : g.sameShape false c d = true) :
    (∀ r < g.size, ∀ found, g.TakenApart r found ↔ found = (g.cases r).toList) ∧
      ∃ cliques, g.similarityCliques options = .ok cliques ∧
        ((∃ clique ∈ cliques, c ∈ clique ∧ d ∈ clique) ↔
          ∀ clique ∈ cliques, ¬ g.PassedOver options.onlySame clique c d ∧
            ¬ g.PassedOver options.onlySame clique d c) := by
  refine ⟨fun r inside found => takenApart_iff ends inside, ?_⟩
  obtain ⟨candidates, listed, sub, types, all⟩ := g.candidates_spec options
  obtain ⟨cliques, found, distinct, _, _⟩ := g.similarityCliques_spec options
  have searched : Clique.search g options.onlySame candidates = .ok cliques := by
    rw [similarityCliques, listed] at found
    exact found
  refine ⟨cliques, found, ?_, ?_⟩
  · rintro ⟨clique, inside, inC, inD⟩ other listed
    have one := fun r => eq_of_mem_disjoint distinct inside listed (r := r)
    constructor
    · intro passed
      have equal := one d inD passed.taken
      exact passed.out (equal ▸ inC)
    · intro passed
      have equal := one c inC passed.taken
      exact passed.out (equal ▸ inD)
  · intro never
    have reaches : (candidates.map Prod.fst).Sublist g.reachable := sub.trans List.filter_sublist
    have records : ∀ entry ∈ candidates, g.record? entry.1 = some entry.2 :=
      fun entry member => g.record?_eq_some_iff.2 (types entry member)
    have split : ∀ {x y : Candidate}, [x, y].Sublist candidates → g.sameShape false x.1 y.1 = true →
        (∃ clique ∈ cliques, x.1 ∈ clique ∧ y.1 ∈ clique) ∨
          ∃ clique ∈ cliques, g.PassedOver options.onlySame clique x.1 y.1 := by
      intro x y pair same
      refine (Clique.search_pair searched (sub.nodup (g.nodup_reachableOf _)) pair same).imp_right ?_
      rintro ⟨members, listed, overtakes⟩
      exact ⟨members, listed, passedOver_of_overtakes overtakes reaches records pair⟩
    obtain ⟨x, inX, rfl⟩ := List.mem_map.1 (all c first)
    obtain ⟨y, inY, rfl⟩ := List.mem_map.1 (all d second)
    have apart : x ≠ y := fun equal => differ (congrArg Prod.fst equal)
    rcases pair_sublist_or inX inY apart with before | after
    · rcases split before same with together | ⟨clique, inside, passed⟩
      · exact together
      · exact absurd passed (never clique inside).1
    · rcases split after (sameShape_symm same) with ⟨clique, inside, inY, inX⟩ | ⟨clique, inside, passed⟩
      · exact ⟨clique, inside, inX, inY⟩
      · exact absurd passed (never clique inside).2

/-- The clique that splits the shape in the graph above passed the second record over. -/
theorem passedOver_overtaken :
    (overtaken.UnionsEnd ∧ overtaken.Eligible ⟨false, false⟩ 2 ∧ overtaken.Eligible ⟨false, false⟩ 4 ∧
      overtaken.sameShape false 2 4 = true) ∧ overtaken.PassedOver false [1, 3, 4] 2 4 := by
  have ends : overtaken.UnionsEnd := overtaken.unionsEnd_of_lt (by decide)
  have same : overtaken.sameShape false 2 4 = true := by cbv
  obtain ⟨first, second⟩ := eligible_overtaken
  refine ⟨⟨ends, first, second, same⟩, ?_⟩
  obtain ⟨_, cliques, found, together⟩ :=
    together_iff_not_passedOver ends first second (by decide) same
  rw [similarityCliques_overtaken] at found
  cases found
  by_contra never
  obtain ⟨clique, listed, inC, _⟩ := together.2 (by
    intro clique listed
    cases List.mem_singleton.1 listed
    refine ⟨never, fun turned => ?_⟩
    have order := turned.later
    have reached : overtaken.reachable = [1, 0, 2, 3, 4] := by cbv
    rw [reached] at order
    exact absurd order (by decide))
  cases List.mem_singleton.1 listed
  exact absurd inC (by decide)

/-- Samples are compared by the leaves of their unions, shapes union by union: the first record below is a
sample with the third and not with the second, although those have one shape. -/
def nestedText : Graph :=
  ⟨#[⟨.primitive .string, .empty⟩, ⟨.primitive .string, .empty⟩, ⟨.primitive .integer, .empty⟩,
      ⟨.union (.ofList [0, 2]), .empty⟩, ⟨.union (.ofList [1, 2]), .empty⟩,
      ⟨.union (.ofList [0, 4]), .empty⟩, ⟨.union (.ofList [0, 3]), .empty⟩,
      .required [("a", 3)] false, .required [("a", 5)] false, .required [("a", 6)] false],
    .ofList [("P", 7), ("C", 8), ("D", 9)], firstFault?_eq_none_iff.1 (by decide +kernel)⟩

example : nestedText.sameShape false 8 9 = true ∧
    nestedText.similarityCliques ⟨false, false⟩ = .ok [[7, 9]] := by
  refine ⟨by cbv, nestedText.similarityCliques_eq (by cbv) ?_⟩
  rw [Clique.search_cons]
  cbv

end Graph

end SchemaGraph
