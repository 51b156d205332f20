import SchemaGraph.Proofs.Combine.Rounds
import SchemaGraph.Proofs.Draft.NormalForm
/-!
# Proofs.Combine.Target -- what the target asks of every type of the result

A target asks two things of a node (`Target.Meets`): a string type has no format, or one that is kept, and
the properties of a record are sorted, if they are to be. Normalizing brings this about, and changes only
what does not meet the target (`Target.normalize_eq_iff`). The types of a new graph are copies, merged
groups, merged properties and members of unions, and their attributes come of a registry that may give
formats any policy at all. But each of them stands for something and was normalized when it was added
(`Plan.Replaces.meets`), so every round makes a graph for the target, whatever graph it began with.
-/

namespace SchemaGraph

set_option autoImplicit false

/-! ## What a target asks of a node -/

namespace KeptFormats

theorem keeps_iff {kept : KeptFormats} {value : Value} :
    kept.keeps value = true ↔ ∃ format ∈ kept, value = .string format.name := by
  constructor
  · intro keeps
    unfold KeptFormats.keeps at keeps
    split at keeps
    · rename_i text
      split at keeps
      · rename_i format found
        have name : format.name = text := by simpa using List.find?_some found
        exact ⟨format, of_decide_eq_true keeps, by rw [name]⟩
      · cases keeps
    · cases keeps
  · rintro ⟨format, listed, rfl⟩
    have found : StringFormat.ofName? format.name = some format := by cases format <;> rfl
    simp only [KeptFormats.keeps, found]
    exact decide_eq_true listed

end KeptFormats

namespace Ty

/-- The names of a record are different, so sorting makes them increase. -/
theorem increasing_alphabetized {type : Ty} {r : Record} (sorts : type.alphabetized = .record r) :
    Increasing r.properties.entries := by
  have ordered : r.properties.entries.Pairwise fun x y => x.1 ≤ y.1 := by
    cases type with
    | record before =>
      cases sorts
      exact pairwise_sorted_by Prod.fst before.properties.entries
    | _ => cases sorts
  have distinct := List.pairwise_map.1 r.properties.nodup
  exact ordered.imp₂ (fun _ _ => Std.lt_of_le_of_ne) distinct

theorem alphabetized_of_increasing {r : Record} (ordered : Increasing r.properties.entries) :
    (Ty.record r).alphabetized = .record r := by
  obtain ⟨properties, fixed⟩ := r
  simp only [alphabetized, record.injEq, Record.mk.injEq, and_true]
  exact OrderedMap.ext (sorted_of_pairwise (ordered.imp fun less => decide_eq_true (Std.le_of_lt less)))

end Ty

namespace Target

/-- What a target asks of a node. -/
structure Meets (target : Target) (node : Node) : Prop where
  /-- The format of a string type is a string that names a kept format. -/
  format : node.type = .primitive .string → ∀ value, node.attributes.get? AttributeKind.format = some value →
    ∃ format ∈ target.kept, value = .string format.name
  /-- The names of a record increase strictly, where properties are sorted. -/
  names : target.alphabetize = true → ∀ r, node.type = .record r → Increasing r.properties.entries

variable {target : Target} {node : Node}

theorem meets_normalize (target : Target) (node : Node) : target.Meets (target.normalize node) where
  format string value found := by
    rw [normalize, if_pos ((target.string_normalize_iff node).1 string)] at found
    exact KeptFormats.keeps_iff.1 (KeptFormats.strip_get?_format found)
  names sorts r record := by
    rw [type_normalize, if_pos sorts] at record
    exact Ty.increasing_alphabetized record

/-- Normalizing leaves a node as it is just if the node meets the target. -/
theorem normalize_eq_iff : target.normalize node = node ↔ target.Meets node := by
  constructor
  · intro same
    rw [← same]
    exact target.meets_normalize node
  · intro meets
    refine Node.ext ?_ ?_
    · rw [type_normalize]
      by_cases sorts : target.alphabetize = true
      · rw [if_pos sorts]
        by_cases record : node.type.kind = .record
        · obtain ⟨r, type⟩ := Ty.exists_record_of_kind record
          rw [type]
          exact Ty.alphabetized_of_increasing (meets.names sorts r type)
        · exact Ty.alphabetized_of_kind record
      · exact if_neg sorts
    · show (if node.type = .primitive .string then _ else _) = _
      by_cases string : node.type = .primitive .string
      · rw [if_pos string]
        exact KeptFormats.strip_eq_self fun value found =>
          KeptFormats.keeps_iff.2 (meets.format string value found)
      · exact if_neg string

end Target

/-! ## What rounds make -/

/-- Every type of the graph, reachable or not, is as the target asks. -/
def Graph.Meets (g : Graph) (target : Target) : Prop :=
  ∀ {r node}, g.node? r = some node → target.Meets node

/-- Whatever a type of the new graph stands for, and wherever its attributes come from, it was normalized. -/
theorem Plan.Replaces.meets {plan : Plan} {conflate : Bool} {target : Target} {h : Graph} {trace : Trace}
    (replaces : plan.Replaces conflate target h trace) : h.Meets target := by
  intro r node found
  obtain ⟨origin, traced⟩ := replaces.traced (h.lt_of_node? found)
  obtain ⟨raw, _, rfl⟩ := replaces.explains traced found
  exact target.meets_normalize raw

namespace Settings

variable {settings : Settings} {registry : Registry} {g h : Graph}

theorem RoundTo.meets (round : settings.RoundTo registry g h) : h.Meets settings.target := by
  obtain ⟨_, _, _, _, _, replaces⟩ := round.exists_plan
  exact replaces.meets

/-- Whatever the graph and the registry, combining gives a graph that meets the target, and so does every
round on the way: each string type has no format or the name of a kept one, and the names of each record
increase strictly, if they are to be sorted. The target leaves such a graph as it is. -/
theorem combine_meets_target (settings : Settings) (registry : Registry) (g : Graph) :
    (∃ h, (settings.combine registry g).result = .ok h ∧ h.Meets settings.target ∧
      ∀ r node, h.node? r = some node → settings.target.normalize node = node) ∧
      ∀ before after, settings.RoundTo registry before after → after.Meets settings.target := by
  obtain ⟨_, h, _, _, done⟩ := settings.exists_combine registry g
  have meets : h.Meets settings.target :=
    combine_induction_of_first done RoundTo.meets fun round _ => round.meets
  exact ⟨⟨h, done, meets, fun _ _ found => Target.normalize_eq_iff.2 (meets found)⟩, fun _ _ => RoundTo.meets⟩

end Settings

end SchemaGraph
