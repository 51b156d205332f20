import SchemaGraph.Builder.Command
import SchemaGraph.Proofs.Draft.Replacement
import SchemaGraph.Proofs.Node
import SchemaGraph.Proofs.Ordered
/-!
# Proofs.Builder.Runs -- what a run of commands builds

A run is seen from outside: the commands and their answers (`Builder.transcript`). What was added,
reserved and named can be read off it, and so can what the builder holds at the end (`Builder.Holds`):
`Builder.Answers` says what one command changes, and no command breaks the correspondence
(`Holds.snoc`).

So the transcript decides how the work ends (`Builder.Finishes`). References are checked when a node is
added, and are never out of range later; whether a reserved reference was filled and whether the members
of a union differ in kind is known only at the end.
-/

namespace SchemaGraph

set_option autoImplicit false

/-- A write adds no value but its own. -/
theorem OrderedMap.mem_values_insert {κ β : Type} [DecidableEq κ] {m : OrderedMap κ β} {k : κ} {v w : β}
    (listed : w ∈ (m.insert k v).values) : w = v ∨ w ∈ m.values := by
  obtain ⟨⟨j, u⟩, entry, rfl⟩ := List.mem_map.1 listed
  have found := get?_eq_some_iff.2 entry
  rw [get?_insert] at found
  split at found
  · exact .inl (Option.some.inj found).symm
  · exact .inr (List.mem_map.2 ⟨_, get?_eq_some_iff.1 found, rfl⟩)

namespace Builder

/-! ## Transcripts -/

/-- A command and its answer. -/
abbrev Exchange := Command × Except GraphFault Reply

/-- The commands of a run and their answers. -/
def transcript (target : Target) (commands : List Command) : List Exchange :=
  commands.zip ((start target).run commands).1

/-- The node that a command asks to be added, and the reserved reference to add it for. -/
def Command.addition? : Command → Option (Node × Option Ref)
  | .add given slot => some (given, slot)
  | .addPrimitive kind attributes slot => kind.primitive?.map fun p => (⟨.primitive p, attributes⟩, slot)
  | _ => none

namespace Exchange

/-- The answer is the reference. -/
def Returns (exchange : Exchange) (r : Ref) : Prop := exchange.2 = .ok (.ref r)

/-- The reference is reserved. -/
def Reserves (exchange : Exchange) (r : Ref) : Prop := exchange.1 = .reserve ∧ exchange.Returns r

/-- The node is added, as the target wants it. -/
def Adds (target : Target) (exchange : Exchange) (r : Ref) (node : Node) : Prop :=
  exchange.Returns r ∧ ∃ given slot, exchange.1.addition? = some (given, slot) ∧
    node = target.normalize given

/-- The node is added without a reserved reference to fill. -/
def Appends (target : Target) (exchange : Exchange) (r : Ref) (node : Node) : Prop :=
  exchange.Returns r ∧ ∃ given, exchange.1.addition? = some (given, none) ∧ node = target.normalize given

/-- The name that is given, and to what. -/
def name? : Exchange → Option (String × Ref)
  | (.addTop name r, .ok .done) => some (name, r)
  | _ => none

/-- The command is answered in its own way: with a reference if it reserves one or adds a node, with nothing
more if it gives a name. Only a reservation is never refused. -/
inductive Regular : Exchange → Prop
  | reserved (r : Ref) : Regular (.reserve, .ok (.ref r))
  | added {command : Command} {given : Node} {slot : Option Ref} (r : Ref) :
      command.addition? = some (given, slot) → Regular (command, .ok (.ref r))
  | named (name : String) (r : Ref) : Regular (.addTop name r, .ok .done)
  | isResolved (r : Ref) (flag : Bool) : Regular (.isResolved r, .ok (.flag flag))
  | node (r : Ref) (found : Option Node) : Regular (.node r, .ok (.node found))
  | refused {command : Command} (fault : GraphFault) : command ≠ .reserve →
      Regular (command, .error fault)

end Exchange

section Statements

variable (target : Target) (exchanges : List Exchange)

/-- The node was added for the reference. -/
def Added (r : Ref) (node : Node) : Prop := ∃ exchange ∈ exchanges, exchange.Adds target r node

/-- The plain primitive type was added without a reserved reference to fill. -/
def Interned (p : Primitive) (r : Ref) : Prop :=
  ∃ exchange ∈ exchanges, ∃ node, exchange.Appends target r node ∧ node.plain? = some p

/-- The reference was reserved, and nothing was added for it. -/
def Unfilled (slot : Ref) : Prop :=
  (∃ exchange ∈ exchanges, exchange.Reserves slot) ∧ ∀ node, ¬ Added target exchanges slot node

/-- A node of the kind was added for the reference. -/
def AddedKind (r : Ref) (kind : Kind) : Prop := ∃ node, Added target exchanges r node ∧ node.kind = kind

/-- A union was added with two members of the kind. -/
def Clashes (owner : Ref) (kind : Kind) : Prop :=
  ∃ node members, Added target exchanges owner node ∧ node.type = .union members ∧
    ∃ a ∈ members, ∃ b ∈ members, a ≠ b ∧ AddedKind target exchanges a kind ∧
      AddedKind target exchanges b kind

/-- How the work ends after the exchanges: with the smallest reference that was reserved and not filled,
or else the first union with two members of one kind, or else the graph of the nodes that were added
and the names that were given. -/
inductive Finishes : Except GraphFault Graph → Prop
  | unresolved {slot : Ref} : Unfilled target exchanges slot →
      (∀ earlier < slot, ¬ Unfilled target exchanges earlier) → Finishes (.error (.unresolved slot))
  | repeatedKind {owner : Ref} {kind : Kind} : (∀ slot, ¬ Unfilled target exchanges slot) →
      Clashes target exchanges owner kind →
      (∀ earlier < owner, ∀ other, ¬ Clashes target exchanges earlier other) →
      Finishes (.error (.repeatedKind owner kind))
  | graph {g : Graph} : (∀ slot, ¬ Unfilled target exchanges slot) →
      (∀ owner kind, ¬ Clashes target exchanges owner kind) →
      (∀ r node, g.node? r = some node ↔ Added target exchanges r node) →
      g.tops = .ofList (exchanges.filterMap Exchange.name?) → Finishes (.ok g)

/-- The later exchange adds a node that is no plain primitive type, for a reference that is greater than
what the earlier one returned. -/
def Fresh (earlier later : Exchange) : Prop :=
  ∀ r node, later.Appends target r node → node.plain? = none → ∀ s, earlier.Returns s → s < r

/-- The builder holds what the exchanges say. -/
structure Holds (b : Builder) : Prop where
  target_eq : b.target = target
  lt_iff : ∀ {r}, r < b.size ↔ ∃ exchange ∈ exchanges, exchange.Returns r
  node?_iff : ∀ {r node}, b.node? r = some node ↔ Added target exchanges r node
  reserved : ∀ {r}, r < b.size → b.node? r = none → ∃ exchange ∈ exchanges, exchange.Reserves r
  tops_eq : b.tops = .ofList (exchanges.filterMap Exchange.name?)
  tops_lt : ∀ r ∈ b.tops.values, r < b.size
  children_lt : ∀ {r node}, b.node? r = some node → ∀ child ∈ node.children, child < b.size
  interned_iff : ∀ {p r}, b.interned.get? p = some r ↔ Interned target exchanges p r
  fresh : exchanges.Pairwise (Fresh target)
  regular : ∀ exchange ∈ exchanges, exchange.Regular

end Statements

/-- What an exchange changes in the builder. -/
structure Answers (target : Target) (b : Builder) (exchange : Exchange) (after : Builder) : Prop where
  target_eq : after.target = b.target
  lt_iff : ∀ {r}, r < after.size ↔ r < b.size ∨ exchange.Returns r
  node?_iff : ∀ {r node}, after.node? r = some node ↔ b.node? r = some node ∨ exchange.Adds target r node
  reserved : ∀ {r}, r < after.size → after.node? r = none →
    r < b.size ∧ b.node? r = none ∨ exchange.Reserves r
  tops_eq : after.tops = match exchange.name? with
    | some entry => b.tops.insert entry.1 entry.2
    | none => b.tops
  name_lt : ∀ {entry}, exchange.name? = some entry → entry.2 < b.size
  children_lt : ∀ {r node}, exchange.Adds target r node → ∀ child ∈ node.children, child < b.size
  interned_iff : ∀ {p r}, after.interned.get? p = some r ↔
    b.interned.get? p = some r ∨ ∃ node, exchange.Appends target r node ∧ node.plain? = some p
  fresh : ∀ {r node}, exchange.Appends target r node → node.plain? = none → b.size ≤ r
  regular : exchange.Regular

variable {target : Target} {b after : Builder} {exchanges : List Exchange} {exchange : Exchange}

theorem Exchange.Appends.adds {r : Ref} {node : Node} (appends : exchange.Appends target r node) :
    exchange.Adds target r node :=
  ⟨appends.1, appends.2.imp fun _ => fun asked => ⟨none, asked⟩⟩

/-! ## One more exchange -/

theorem exists_mem_snoc {P : Exchange → Prop} :
    (∃ e ∈ exchanges ++ [exchange], P e) ↔ (∃ e ∈ exchanges, P e) ∨ P exchange := by
  simp only [List.mem_append, List.mem_singleton, or_and_right, exists_or, exists_eq_left]

/-- What the exchanges so far say goes on to hold after the next one. -/
theorem Holds.snoc (holds : Holds target exchanges b) (answers : Answers target b exchange after) :
    Holds target (exchanges ++ [exchange]) after where
  target_eq := answers.target_eq.trans holds.target_eq
  lt_iff {r} := by rw [exists_mem_snoc, answers.lt_iff, holds.lt_iff]
  node?_iff {r node} := by rw [Added, exists_mem_snoc, answers.node?_iff, holds.node?_iff, Added]
  reserved inside absent := by
    rw [exists_mem_snoc]
    exact (answers.reserved inside absent).imp_left fun old => holds.reserved old.1 old.2
  tops_eq := by
    rw [answers.tops_eq, holds.tops_eq, List.filterMap_append, OrderedMap.ofList, OrderedMap.ofList,
      List.foldl_append]
    cases named : exchange.name? with
    | none => rw [List.filterMap_cons_none named]; rfl
    | some entry => rw [List.filterMap_cons_some named]; rfl
  tops_lt r listed := by
    refine answers.lt_iff.2 (.inl ?_)
    rw [answers.tops_eq] at listed
    cases named : exchange.name? with
    | none =>
      simp only [named] at listed
      exact holds.tops_lt r listed
    | some entry =>
      simp only [named] at listed
      rcases OrderedMap.mem_values_insert listed with rfl | old
      · exact answers.name_lt named
      · exact holds.tops_lt r old
  children_lt found child member := by
    refine answers.lt_iff.2 (.inl ?_)
    rcases answers.node?_iff.1 found with old | adds
    · exact holds.children_lt old child member
    · exact answers.children_lt adds child member
  interned_iff {p r} := by
    rw [Interned, exists_mem_snoc, answers.interned_iff, holds.interned_iff, Interned]
  fresh := by
    refine List.pairwise_append.2 ⟨holds.fresh, List.pairwise_singleton _ _, ?_⟩
    intro earlier listed later last r node appends other s returned
    cases List.mem_singleton.1 last
    have old := holds.lt_iff.2 ⟨earlier, listed, returned⟩
    exact Nat.lt_of_lt_of_le old (answers.fresh appends other)
  regular e listed := by
    rcases List.mem_append.1 listed with old | last
    · exact holds.regular e old
    · rw [List.mem_singleton.1 last]
      exact answers.regular

/-! ## What an exchange says -/

section Said

variable {command : Command} {given node : Node} {slot : Option Ref} {r s : Ref}

@[simp] theorem returns_ref_iff : Exchange.Returns (command, .ok (.ref r)) s ↔ s = r := by
  rw [Exchange.Returns, Except.ok.injEq, Reply.ref.injEq]
  exact eq_comm

theorem adds_iff (asked : command.addition? = some (given, slot)) :
    Exchange.Adds target (command, .ok (.ref r)) s node ↔ s = r ∧ node = target.normalize given := by
  rw [Exchange.Adds, returns_ref_iff]
  refine and_congr_right fun _ => ⟨?_, fun same => ⟨given, slot, asked, same⟩⟩
  rintro ⟨other, place, found, same⟩
  cases asked.symm.trans found
  exact same

theorem appends_iff (asked : command.addition? = some (given, slot)) :
    Exchange.Appends target (command, .ok (.ref r)) s node ↔
      s = r ∧ slot = none ∧ node = target.normalize given := by
  rw [Exchange.Appends, returns_ref_iff]
  refine and_congr_right fun _ => ⟨?_, fun ⟨free, same⟩ => ⟨given, free ▸ asked, same⟩⟩
  rintro ⟨other, found, same⟩
  cases asked.symm.trans found
  exact ⟨rfl, same⟩

/-- A command to add a node names nothing. -/
theorem name?_of_addition (asked : command.addition? = some (given, slot))
    {answer : Except GraphFault Reply} : Exchange.name? (command, answer) = none := by
  cases command <;> first | rfl | cases asked

end Said

/-! ## What a command changes -/

/-- An exchange that neither returns a reference nor gives a name changes nothing. -/
theorem Answers.idle (regular : exchange.Regular) (silent : ∀ r, ¬ exchange.Returns r)
    (unnamed : exchange.name? = none) : Answers target b exchange b where
  target_eq := rfl
  lt_iff {r} := by simp only [silent, or_false]
  node?_iff := ⟨.inl, fun either => either.resolve_right fun adds => silent _ adds.1⟩
  reserved inside absent := .inl ⟨inside, absent⟩
  tops_eq := by rw [unnamed]
  name_lt named := by
    rw [unnamed] at named
    cases named
  children_lt adds := absurd adds.1 (silent _)
  interned_iff := ⟨.inl, fun either => either.resolve_right fun ⟨_, appends, _⟩ => silent _ appends.1⟩
  fresh appends := absurd appends.1 (silent _)
  regular := regular

theorem size_push (slot : Option Node) {r : Ref} : r < (b.slots.push slot).size ↔ r < b.size ∨ r = b.size := by
  rw [Array.size_push]
  exact Nat.lt_succ_iff_lt_or_eq

/-- A slot more holds what was put there. -/
theorem join_push (slot : Option Node) {r : Ref} {node : Node} :
    ((b.slots.push slot)[r]?).join = some node ↔
      b.node? r = some node ∨ r = b.size ∧ slot = some node := by
  rw [node?, Array.getElem?_push]
  by_cases last : r = b.slots.size
  · subst last
    simp [size]
  · simp [last, size]

theorem answers_reserve : Answers target b (.reserve, .ok (.ref b.size)) (b.reserve).2 where
  target_eq := rfl
  lt_iff := (size_push none).trans (or_congr_right returns_ref_iff.symm)
  node?_iff {r node} := by
    have none : ¬ Exchange.Adds target (.reserve, .ok (.ref b.size)) r node := by
      rintro ⟨_, _, _, asked, _⟩
      cases asked
    rw [or_iff_left none]
    refine (join_push _).trans (or_iff_left ?_)
    rintro ⟨_, same⟩
    cases same
  reserved {r} inside absent := by
    rcases (size_push none).1 inside with old | rfl
    · refine .inl ⟨old, ?_⟩
      rw [node?, ← slots_push old]
      exact absent
    · exact .inr ⟨rfl, returns_ref_iff.2 rfl⟩
  tops_eq := rfl
  name_lt named := by cases named
  children_lt := by
    rintro r node ⟨_, _, _, asked, _⟩
    cases asked
  interned_iff := by
    refine ⟨.inl, fun either => either.resolve_right ?_⟩
    rintro ⟨_, ⟨_, _, asked, _⟩, _⟩
    cases asked
  fresh := by
    rintro r node ⟨_, _, asked, _⟩
    cases asked
  regular := .reserved _

theorem answers_addTop {name : String} {r : Ref} (inside : r < b.size) :
    Answers target b (.addTop name r, .ok .done) { b with tops := b.tops.insert name r } where
  target_eq := rfl
  lt_iff := ⟨.inl, fun either => either.resolve_right (by rintro ⟨⟩)⟩
  node?_iff := ⟨.inl, fun either => either.resolve_right (by rintro ⟨⟨⟩, _⟩)⟩
  reserved known absent := .inl ⟨known, absent⟩
  tops_eq := rfl
  name_lt named := by
    cases named
    exact inside
  children_lt := by rintro r node ⟨⟨⟩, _⟩
  interned_iff := ⟨.inl, fun either => either.resolve_right (by rintro ⟨_, ⟨⟨⟩, _⟩, _⟩)⟩
  fresh := by rintro r node ⟨⟨⟩, _⟩
  regular := .named name r

section Adding

variable {command : Command} {given : Node} {slot : Option Ref} {r : Ref}
  (asked : command.addition? = some (given, slot)) (inside : ∀ child ∈ given.children, child < b.size)

include asked inside

/-- A node that is added, wherever it is put. -/
theorem Answers.of_addition (target_eq : after.target = b.target) (tops_eq : after.tops = b.tops)
    (lt_iff : ∀ {s}, s < after.size ↔ s < b.size ∨ s = r)
    (node?_iff : ∀ {s node}, after.node? s = some node ↔
      b.node? s = some node ∨ s = r ∧ node = b.target.normalize given)
    (interned_iff : ∀ {p s}, after.interned.get? p = some s ↔ b.interned.get? p = some s ∨
      s = r ∧ slot = none ∧ (b.target.normalize given).plain? = some p)
    (fresh : slot = none → (b.target.normalize given).plain? = none → b.size ≤ r) :
    Answers b.target b (command, .ok (.ref r)) after where
  target_eq := target_eq
  lt_iff := lt_iff.trans (or_congr_right returns_ref_iff.symm)
  node?_iff := node?_iff.trans (or_congr_right (adds_iff asked).symm)
  reserved {s} known absent := by
    have empty : ∀ node, ¬ (b.node? s = some node ∨ s = r ∧ node = b.target.normalize given) := by
      intro node found
      rw [← node?_iff, absent] at found
      cases found
    refine .inl ⟨(lt_iff.1 known).resolve_right fun same => empty _ (.inr ⟨same, rfl⟩), ?_⟩
    exact Option.eq_none_iff_forall_ne_some.2 fun node found => empty node (.inl found)
  tops_eq := by rw [name?_of_addition asked, tops_eq]
  name_lt named := by
    rw [name?_of_addition asked] at named
    cases named
  children_lt adds child member := by
    obtain ⟨_, rfl⟩ := (adds_iff asked).1 adds
    exact inside child ((Target.mem_children_normalize _ _).1 member)
  interned_iff {p s} := by
    refine interned_iff.trans (or_congr_right ⟨?_, ?_⟩)
    · rintro ⟨rfl, free, plain⟩
      exact ⟨_, (appends_iff asked).2 ⟨rfl, free, rfl⟩, plain⟩
    · rintro ⟨node, appends, plain⟩
      obtain ⟨rfl, free, rfl⟩ := (appends_iff asked).1 appends
      exact ⟨rfl, free, plain⟩
  fresh appends other := by
    obtain ⟨rfl, free, rfl⟩ := (appends_iff asked).1 appends
    exact fresh free other
  regular := .added r asked

/-- A node fills a reserved reference. -/
theorem answers_fill (reserved : slot = some r) (pending : b.slots[r]? = some none) :
    Answers b.target b (command, .ok (.ref r))
      { b with slots := b.slots.setIfInBounds r (some (b.target.normalize given)) } := by
  have bound : r < b.slots.size := (Array.getElem?_eq_some_iff.1 pending).1
  have absent : b.node? r = none := by rw [node?, pending]; rfl
  have notFree : slot ≠ none := by simp [reserved]
  refine .of_addition asked inside rfl rfl ?_ ?_ ?_ fun free => absurd free notFree
  · intro s
    show s < (b.slots.setIfInBounds r _).size ↔ _
    rw [Array.size_setIfInBounds]
    exact ⟨.inl, fun either => either.elim id fun same => same ▸ bound⟩
  · intro s node
    show ((b.slots.setIfInBounds r _)[s]?).join = some node ↔ _
    by_cases same : s = r
    · subst same
      rw [Array.getElem?_setIfInBounds_self_of_lt bound, absent]
      simp [eq_comm]
    · rw [Array.getElem?_setIfInBounds_ne (Ne.symm same), ← node?]
      simp [same]
  · intro p s
    simp [notFree]

/-- A plain primitive type that was added before is not added again. -/
theorem answers_again {p : Primitive}
    (known : ∀ {p r}, b.interned.get? p = some r → b.node? r = some ⟨.primitive p, .empty⟩)
    (plain : (b.target.normalize given).plain? = some p) (found : b.interned.get? p = some r) :
    Answers b.target b (command, .ok (.ref r)) b := by
  have here : b.node? r = some (b.target.normalize given) := by
    rw [known found, ← Node.eq_of_plain? _ plain]
  refine .of_addition asked inside rfl rfl ?_ ?_ ?_ ?_
  · exact ⟨.inl, fun either => either.elim id fun same => same ▸ lt_of_node? here⟩
  · exact ⟨.inl, fun either => either.elim id fun ⟨same, node⟩ => same ▸ node ▸ here⟩
  · intro q s
    refine ⟨.inl, fun either => either.elim id ?_⟩
    rintro ⟨rfl, _, again⟩
    cases plain.symm.trans again
    exact found
  · intro _ other
    rw [plain] at other
    cases other

/-- A node is put behind the others; a plain primitive type is noted in the table. -/
theorem answers_push (free : slot = none) {table : OrderedMap Primitive Ref}
    (noted : ∀ {p s}, table.get? p = some s ↔ b.interned.get? p = some s ∨
      s = b.size ∧ (b.target.normalize given).plain? = some p) :
    Answers b.target b (command, .ok (.ref b.size))
      { (b.push (b.target.normalize given)).2 with interned := table } := by
  refine .of_addition asked inside rfl rfl (size_push _) ?_ ?_ fun _ _ => Nat.le_refl _
  · intro s node
    refine (join_push _).trans (or_congr_right (and_congr_right fun _ => ?_))
    rw [Option.some.injEq]
    exact eq_comm
  · intro p s
    simp only [noted, free, true_and]

end Adding

section Steps

variable (known : ∀ {p r}, b.interned.get? p = some r → b.node? r = some ⟨.primitive p, .empty⟩)

include known

/-- What adding a node changes. -/
theorem answers_add {command : Command} {given : Node} {slot : Option Ref} {r : Ref}
    (asked : command.addition? = some (given, slot)) (added : b.add given slot = .ok (r, after)) :
    Answers b.target b (command, .ok (.ref r)) after := by
  unfold add at added
  split at added
  · cases added
  · rename_i none
    have inside : ∀ child ∈ given.children, child < b.size := by
      intro child member
      simpa using List.find?_eq_none.1 none child member
    cases slot with
    | some place =>
      simp only [fill] at added
      split at added
      · cases added
      · cases added
      · rename_i pending
        cases added
        exact answers_fill asked inside rfl pending
    | none =>
      have same : b.append (b.target.normalize given) = (r, after) := Except.ok.inj added
      unfold append at same
      split at same
      · rename_i plain
        cases same
        exact answers_push asked inside rfl fun {p s} => by simp [plain]
      · rename_i p plain
        split at same
        · rename_i found
          cases same
          exact answers_again asked inside known plain found
        · rename_i fresh
          cases same
          refine answers_push asked inside rfl fun {q s} => ?_
          rw [OrderedMap.get?_insert_eq_some_iff fresh, plain, Option.some.injEq, or_comm, eq_comm,
            and_comm, eq_comm (a := p)]

/-- What a command changes, and what it is answered. -/
theorem answers_step (command : Command) :
    Answers b.target b (command, (b.step command).1) (b.step command).2 := by
  have fails : ∀ {fault}, b.perform command = .error fault →
      Answers b.target b (command, (b.step command).1) (b.step command).2 := by
    intro fault failed
    simp only [step, failed]
    refine .idle (.refused fault ?_) (by rintro r ⟨⟩) (by cases command <;> rfl)
    rintro rfl
    cases failed
  have succeeds : ∀ {reply next}, b.perform command = .ok (reply, next) →
      Answers b.target b (command, .ok reply) next →
      Answers b.target b (command, (b.step command).1) (b.step command).2 := by
    intro reply next done answers
    simp only [step, done]
    exact answers
  cases command with
  | reserve => exact succeeds rfl answers_reserve
  | add given slot =>
    cases added : b.add given slot with
    | error fault => exact fails (by simp only [perform, added]; rfl)
    | ok result =>
      have done : b.perform (.add given slot) = .ok (.ref result.1, result.2) := by
        simp only [perform, added]
        rfl
      exact succeeds done (answers_add known rfl added)
  | addPrimitive kind attributes slot =>
    cases primitive : kind.primitive? with
    | none => exact fails (by simp only [perform, addPrimitive, primitive]; rfl)
    | some p =>
      have asked : (Command.addPrimitive kind attributes slot).addition? =
          some (⟨.primitive p, attributes⟩, slot) := by rw [Command.addition?, primitive]; rfl
      cases added : b.add ⟨.primitive p, attributes⟩ slot with
      | error fault => exact fails (by simp only [perform, addPrimitive, primitive, added]; rfl)
      | ok result =>
        have done : b.perform (.addPrimitive kind attributes slot) = .ok (.ref result.1, result.2) := by
          simp only [perform, addPrimitive, primitive, added]
          rfl
        exact succeeds done (answers_add known asked added)
  | addTop name r =>
    by_cases inside : r < b.size
    · exact succeeds (by simp only [perform, addTop, if_pos inside]; rfl) (answers_addTop inside)
    · exact fails (by simp only [perform, addTop, if_neg inside]; rfl)
  | isResolved r => exact succeeds rfl (.idle (.isResolved r _) (by rintro s ⟨⟩) rfl)
  | node r => exact succeeds rfl (.idle (.node r _) (by rintro s ⟨⟩) rfl)

end Steps

/-! ## Runs -/

/-- The plain primitive types that were noted are there. -/
theorem Holds.node?_of_interned (holds : Holds target exchanges b) {p : Primitive} {r : Ref}
    (found : b.interned.get? p = some r) : b.node? r = some ⟨.primitive p, .empty⟩ := by
  obtain ⟨exchange, listed, node, appends, plain⟩ := holds.interned_iff.1 found
  rw [← node.eq_of_plain? plain]
  exact holds.node?_iff.2 ⟨exchange, listed, appends.adds⟩

theorem holds_start : Holds target [] (start target) where
  target_eq := rfl
  lt_iff := by simp [start, size]
  node?_iff := by simp [start, node?, Added]
  reserved inside := absurd inside (Nat.not_lt_zero _)
  tops_eq := rfl
  tops_lt r listed := by cases listed
  children_lt found := by cases found
  interned_iff := by simp [start, Interned]
  fresh := .nil
  regular exchange listed := by cases listed

/-- Whatever the commands, the builder holds what the exchanges say. -/
theorem Holds.run (holds : Holds target exchanges b) (commands : List Command) :
    Holds target (exchanges ++ commands.zip (b.run commands).1) (b.run commands).2 := by
  induction commands generalizing exchanges b with
  | nil =>
    rw [List.zip_nil_left, List.append_nil]
    exact holds
  | cons command rest ih =>
    have answers := answers_step holds.node?_of_interned command
    rw [holds.target_eq] at answers
    have after := ih (holds.snoc answers)
    rw [List.append_assoc] at after
    exact after

theorem holds_transcript (target : Target) (commands : List Command) :
    Holds target (transcript target commands) ((start target).run commands).2 :=
  holds_start.run commands

end Builder

/-! ## The first fault of a graph -/

theorem Graph.ofNodes?_eq_error {nodes : Array Node} {tops : OrderedMap String Ref} {fault : GraphFault}
    (found : firstFault? nodes tops = some fault) : Graph.ofNodes? nodes tops = .error fault := by
  unfold Graph.ofNodes?
  split
  · rename_i first check
    rw [found] at check
    cases check
    rfl
  · rename_i check
    rw [found] at check
    cases check

/-- Of different elements, two that have the same image. -/
theorem exists_pair_of_firstRepeat? {α β : Type} [DecidableEq β] {f : α → Option β} {xs : List α}
    (distinct : xs.Nodup) {seen : List β} {k : β} (found : firstRepeat? seen (xs.filterMap f) = some k) :
    (∃ b ∈ xs, f b = some k ∧ k ∈ seen) ∨ ∃ a ∈ xs, ∃ b ∈ xs, a ≠ b ∧ f a = some k ∧ f b = some k := by
  induction xs generalizing seen with
  | nil => cases found
  | cons x rest ih =>
    rw [List.nodup_cons] at distinct
    cases image : f x with
    | none =>
      rw [List.filterMap_cons_none image] at found
      refine (ih distinct.2 found).imp ?_ ?_
      · rintro ⟨b, listed, holds⟩
        exact ⟨b, List.mem_cons_of_mem _ listed, holds⟩
      · rintro ⟨a, inA, b, inB, holds⟩
        exact ⟨a, List.mem_cons_of_mem _ inA, b, List.mem_cons_of_mem _ inB, holds⟩
    | some here =>
      rw [List.filterMap_cons_some image, firstRepeat?] at found
      split at found
      · rename_i old
        cases found
        exact .inl ⟨x, List.mem_cons_self, image, old⟩
      · rcases ih distinct.2 found with ⟨b, listed, imageB, old⟩ | ⟨a, inA, b, inB, holds⟩
        · rcases List.mem_cons.1 old with rfl | older
          · refine .inr ⟨x, List.mem_cons_self, b, List.mem_cons_of_mem _ listed, ?_, image, imageB⟩
            rintro rfl
            exact distinct.1 listed
          · exact .inl ⟨b, List.mem_cons_of_mem _ listed, imageB, older⟩
        · exact .inr ⟨a, List.mem_cons_of_mem _ inA, b, List.mem_cons_of_mem _ inB, holds⟩

/-- The fault of the nodes is that of the first node that has one. -/
theorem nodesFault?_eq_some {nodes : Array Node} {fault : GraphFault}
    (found : nodesFault? nodes = some fault) :
    ∃ owner node, nodes[owner]? = some node ∧ nodeFault? nodes owner node = some fault ∧
      ∀ earlier < owner, ∀ other, nodes[earlier]? = some other → nodeFault? nodes earlier other = none := by
  obtain ⟨before, ⟨node, owner⟩, rest, split, here, clean⟩ := List.findSome?_eq_some_iff.1 found
  have at_ : ∀ i : Nat, nodes.toList.zipIdx[i]? = (nodes[i]?).map fun node => (node, i) := by
    intro i
    rw [List.getElem?_zipIdx, Nat.zero_add, Array.getElem?_toList]
  have place := at_ before.length
  rw [split, List.getElem?_append_right (Nat.le_refl _), Nat.sub_self, List.getElem?_cons_zero] at place
  obtain ⟨same, found, pair⟩ := Option.map_eq_some_iff.1 place.symm
  cases pair
  refine ⟨before.length, node, found, here, fun earlier less other there => ?_⟩
  have entry := at_ earlier
  rw [there, split, List.getElem?_append_left less] at entry
  exact clean _ (List.mem_of_getElem? entry)

/-- If constituents are there, the fault of a node is a kind that two members of a union have. -/
theorem nodeFault?_eq_some {nodes : Array Node} {owner : Ref} {node : Node} {fault : GraphFault}
    (inside : ∀ r ∈ node.children, r < nodes.size) (found : nodeFault? nodes owner node = some fault) :
    ∃ kind members, fault = .repeatedKind owner kind ∧ node.type = .union members ∧
      ∃ a ∈ members, ∃ b ∈ members, a ≠ b ∧ kindAt? nodes a = some kind ∧ kindAt? nodes b = some kind := by
  have none : node.children.find? (fun r => decide (nodes.size ≤ r)) = none := by
    rw [List.find?_eq_none]
    intro child member
    simpa using inside child member
  rw [nodeFault?, none] at found
  obtain ⟨kind, repeated, rfl⟩ := Option.map_eq_some_iff.1 found
  unfold repeatedKind? at repeated
  split at repeated
  · rename_i members type
    refine ⟨kind, members, rfl, type, ?_⟩
    rcases exists_pair_of_firstRepeat? members.nodup repeated with ⟨_, _, _, old⟩ | pair
    · cases old
    · exact pair
  · cases repeated

namespace Builder

variable {target : Target} {b : Builder} {exchanges : List Exchange}

theorem Holds.unfilled_iff (holds : Holds target exchanges b) {slot : Ref} :
    Unfilled target exchanges slot ↔ slot < b.size ∧ b.node? slot = none := by
  have absent : (∀ node, ¬ Added target exchanges slot node) ↔ b.node? slot = none := by
    rw [Option.eq_none_iff_forall_ne_some]
    simp only [← holds.node?_iff, ne_eq]
  rw [Unfilled, absent]
  constructor
  · rintro ⟨⟨exchange, listed, _, returns⟩, none⟩
    exact ⟨holds.lt_iff.2 ⟨exchange, listed, returns⟩, none⟩
  · rintro ⟨inside, none⟩
    exact ⟨holds.reserved inside none, none⟩

section Complete

variable {nodes : Array Node}

theorem Holds.not_unfilled (holds : Holds target exchanges b) (slots : b.slots = nodes.map some) (slot : Ref) :
    ¬ Unfilled target exchanges slot := by
  intro unfilled
  obtain ⟨bound, empty⟩ := holds.unfilled_iff.1 unfilled
  rw [size, slots, Array.size_map] at bound
  rw [node?_of_complete slots, Array.getElem?_eq_none_iff] at empty
  exact Nat.not_lt.2 empty bound

theorem Holds.addedKind_iff (holds : Holds target exchanges b) (slots : b.slots = nodes.map some) {r : Ref}
    {kind : Kind} : AddedKind target exchanges r kind ↔ kindAt? nodes r = some kind := by
  rw [AddedKind, kindAt?, ← node?_of_complete slots, Option.map_eq_some_iff]
  simp only [holds.node?_iff]

/-- Two members of one kind are a fault of their union, -/
theorem Holds.exists_fault_of_clashes (holds : Holds target exchanges b) (slots : b.slots = nodes.map some)
    {owner : Ref} {kind : Kind} (clash : Clashes target exchanges owner kind) :
    ∃ node, nodes[owner]? = some node ∧ nodeFault? nodes owner node ≠ none := by
  obtain ⟨node, members, added, type, a, inA, c, inC, differ, kindA, kindC⟩ := clash
  have found : nodes[owner]? = some node := by
    rw [← node?_of_complete slots]
    exact holds.node?_iff.2 added
  refine ⟨node, found, fun none => differ ?_⟩
  refine (nodeFault?_eq_none_iff.1 none).2 members type a inA c inC ?_
  rw [(holds.addedKind_iff slots).1 kindA, (holds.addedKind_iff slots).1 kindC]

/-- and there is no other fault: constituents are checked when a node is added. -/
theorem Holds.clashes_of_nodeFault? (holds : Holds target exchanges b) (slots : b.slots = nodes.map some)
    {owner : Ref} {node : Node} {fault : GraphFault} (found : nodes[owner]? = some node)
    (here : nodeFault? nodes owner node = some fault) :
    ∃ kind, fault = .repeatedKind owner kind ∧ Clashes target exchanges owner kind := by
  have known : b.node? owner = some node := (node?_of_complete slots owner).trans found
  have inside : ∀ child ∈ node.children, child < nodes.size := by
    intro child member
    have bound := holds.children_lt known child member
    rw [size, slots, Array.size_map] at bound
    exact bound
  obtain ⟨kind, members, rfl, type, a, inA, c, inC, differ, kindA, kindC⟩ := nodeFault?_eq_some inside here
  exact ⟨kind, rfl, node, members, holds.node?_iff.1 known, type, a, inA, c, inC, differ,
    (holds.addedKind_iff slots).2 kindA, (holds.addedKind_iff slots).2 kindC⟩

/-- If every reference is filled, the unions decide. -/
theorem Holds.finishes_of_complete (holds : Holds target exchanges b) (slots : b.slots = nodes.map some) :
    Finishes target exchanges b.finish? := by
  have filled := holds.not_unfilled slots
  have tops : topFault? nodes b.tops = none := by
    refine topFault?_eq_none_iff.2 fun r listed => ?_
    have bound := holds.tops_lt r listed
    rw [size, slots, Array.size_map] at bound
    exact bound
  rw [finish?_of_complete slots]
  cases first : nodesFault? nodes with
  | some fault =>
    obtain ⟨owner, node, found, here, before⟩ := nodesFault?_eq_some first
    obtain ⟨kind, rfl, clash⟩ := holds.clashes_of_nodeFault? slots found here
    rw [Graph.ofNodes?_eq_error (by rw [firstFault?, tops, first])]
    refine .repeatedKind filled clash fun earlier less other clash => ?_
    obtain ⟨node, there, faulty⟩ := holds.exists_fault_of_clashes slots clash
    exact faulty (before earlier less node there)
  | none =>
    have valid : Valid nodes b.tops := firstFault?_eq_none_iff.1 (by rw [firstFault?, tops, first])
    rw [Graph.ofNodes?_eq_ok valid]
    refine .graph filled (fun owner kind clash => ?_) (fun r node => ?_) holds.tops_eq
    · obtain ⟨node, there, faulty⟩ := holds.exists_fault_of_clashes slots clash
      have member := Array.mem_of_getElem? there
      exact faulty (nodeFault?_eq_none_iff.2 ⟨valid.children_lt node member, valid.kinds_differ node member⟩)
    · rw [Graph.node?, ← node?_of_complete slots]
      exact holds.node?_iff

end Complete

/-- The exchanges decide how the work ends. -/
theorem Holds.finishes (holds : Holds target exchanges b) : Finishes target exchanges b.finish? := by
  obtain ⟨nodes, slots⟩ | ⟨slot, reserved⟩ := b.complete_or_reserved
  · exact holds.finishes_of_complete slots
  · obtain ⟨finished, bound, empty, before⟩ := finish?_of_reserved reserved
    rw [finished]
    refine .unresolved (holds.unfilled_iff.2 ⟨bound, empty⟩) fun earlier less unfilled => ?_
    exact before earlier less (holds.unfilled_iff.1 unfilled).2

/-- Every command is answered. -/
theorem length_run (b : Builder) (commands : List Command) :
    (b.run commands).1.length = commands.length := by
  induction commands generalizing b with
  | nil => rfl
  | cons command rest ih => exact congrArg (· + 1) (ih (b.step command).2)

/-- Whatever a builder is told, and whatever of it fails, every command is answered in its own way, and the
commands and their answers decide how the work ends: with the smallest reference that was never filled,
with the first union that has two members of one kind, or with the graph of what was added and named, but
never with a reference that is out of range. A plain primitive type that is added for no reserved reference
is added once for each kind, and any other node gets a reference that was not given out before. -/
theorem run_finishes (target : Target) (commands : List Command) :
    (transcript target commands).map Prod.fst = commands ∧
      (∀ exchange ∈ transcript target commands, exchange.Regular) ∧
      Finishes target (transcript target commands) ((start target).run commands).2.finish? ∧
      (∀ fault, ((start target).run commands).2.finish? = .error fault →
        fault.family ≠ .invalidReference) ∧
      (∀ p r s, Interned target (transcript target commands) p r →
        Interned target (transcript target commands) p s → r = s) ∧
      (transcript target commands).Pairwise (Fresh target) := by
  have holds : Holds target (transcript target commands) _ := holds_transcript target commands
  have finishes := holds.finishes
  refine ⟨?_, holds.regular, finishes, fun fault failed => ?_, fun p r s one other => ?_, holds.fresh⟩
  · exact List.map_fst_zip (Nat.le_of_eq (length_run _ commands).symm)
  · rw [failed] at finishes
    cases finishes <;> rintro ⟨⟩
  · have same := (holds.interned_iff.2 one).symm.trans (holds.interned_iff.2 other)
    exact Option.some.inj same

/-- A list of its own items is never finished: the reference that was reserved for them is still open. -/
example : ((start .standard).run [.reserve, .add ⟨.array 0, .empty⟩ none, .addTop "A" 1]).2.finish? =
    .error (.unresolved 0) := by cbv

end Builder

end SchemaGraph
