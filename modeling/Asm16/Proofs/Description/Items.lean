-- SUMMARY: The items of a description in document order, and that loading goes through them one by one.
import Asm16.Description.Load
import Asm16.Proofs.Description.Pattern
import Asm16.Proofs.Except

/-!
# Items of a description

A description is loaded by a walk over its tree that drives a builder, whose open groups hold the opcode
in force. Said without a builder, a description is a list of items in document order: the instructions
of the top level, then each group, as its opcode, its own instructions and the groups within it. An
instruction is listed with the opcode of its nearest enclosing group. The catalog is collected from the
items one after the other.
-/

namespace Asm16

/-- The opcode of a group, or an instruction with the opcode of its nearest enclosing group, if it is
in one. -/
inductive Item where
  | group (opcode : Text)
  | instruction (enclosing : Option Text) (declared : Declaration)

namespace Item

mutual

/-- The items of a group: its opcode, its own instructions, and the groups within it. -/
def ofGroup : Group → List Item
  | .mk opcode instructions groups =>
    .group opcode :: (instructions.map (.instruction (some opcode)) ++ ofGroups groups)

/-- The items of groups, one group after the other. -/
def ofGroups : List Group → List Item
  | [] => []
  | g :: rest => ofGroup g ++ ofGroups rest

end

end Item

/-- The items of a description in document order. -/
def Description.items (d : Description) : List Item :=
  d.instructions.map (.instruction none) ++ Item.ofGroups d.groups

namespace Item

mutual

/-- The opcode of an enclosing group is an item of its own. -/
theorem group_mem_ofGroup {g : Group} {opcode : Text} {d : Declaration}
    (h : Item.instruction (some opcode) d ∈ ofGroup g) : Item.group opcode ∈ ofGroup g := by
  match g with
  | .mk own ds gs =>
    rw [ofGroup] at h ⊢
    rcases List.mem_cons.1 h with h | h
    · cases h
    · rcases List.mem_append.1 h with h | h
      · obtain ⟨_, -, h⟩ := List.mem_map.1 h
        cases h
        exact List.mem_cons_self
      · exact List.mem_cons_of_mem _ (List.mem_append_right _ (group_mem_ofGroups h))

theorem group_mem_ofGroups {gs : List Group} {opcode : Text} {d : Declaration}
    (h : Item.instruction (some opcode) d ∈ ofGroups gs) : Item.group opcode ∈ ofGroups gs := by
  match gs with
  | [] => cases h
  | g :: gs =>
    rw [ofGroups] at h ⊢
    rcases List.mem_append.1 h with h | h
    · exact List.mem_append_left _ (group_mem_ofGroup h)
    · exact List.mem_append_right _ (group_mem_ofGroups h)

end

end Item

/-! ## One item on its own -/

/-- The instruction that an entry makes under the innermost open group, or under none. -/
def Entry.instruction (e : Entry Nibble) : Option Nibble → Except EntryError Instruction
  | none =>
    match e.opcode with
    | none => .error (.missingOpcode e.name)
    | some opcode => .ok ⟨e.name, opcode, .r, e.cycles, e.addressing⟩
  | some group =>
    match e.slot with
    | none => .error (.missingSlot e.name)
    | some (k, n) => .ok ⟨e.name, group, .ofSlot k n, e.cycles, e.addressing⟩

theorem Builder.register_eq (b : Builder) (e : Entry Nibble) :
    b.register e = (e.instruction b.groups.head?).map b.add := by
  unfold register Entry.instruction
  cases b.groups with
  | nil => cases e.opcode <;> rfl
  | cons opcode outer => cases e.slot <;> rfl

/-- The instruction a declaration makes, in a group of the opcode or in none. -/
def Declaration.instruction (d : Declaration) (group : Option Nibble) :
    Except LoadError Instruction := do
  let e ← d.entry group.isSome
  match e.instruction group with
  | .ok i => .ok i
  | .error why => .error (.entry why)

/-- What an item adds to a catalog. The opcode of an enclosing group counts as it is: whether it is a
bit pattern is settled by the item of the group. -/
def Item.instructions : Item → Except LoadError (List Instruction)
  | group opcode => (Declaration.nibble opcode).map fun _ => []
  | instruction enclosing d => (d.instruction (enclosing.map Pattern.number)).map ([·])

/-- What items add to a catalog, one after the other. -/
def Item.collect : List Item → Except LoadError (List Instruction)
  | [] => .ok []
  | item :: rest => do
    let is ← item.instructions
    (collect rest).map (is ++ ·)

theorem Declaration.number_of_nibble {bits : Text} {x : Nibble} (h : nibble bits = .ok x) :
    Pattern.number bits = x := by
  rw [nibble] at h
  split at h
  · rename_i n hn
    rw [← Except.ok.inj h, Pattern.number_of_spells (Pattern.parse_eq_ok_iff.1 hn)]
  · cases h

/-! ## The walk -/

namespace Item

theorem collect_append (items rest : List Item) :
    collect (items ++ rest) = collect items >>= fun is => (collect rest).map (is ++ ·) := by
  induction items with
  | nil =>
    cases h : collect rest <;> simp [collect, h, Except.map]
  | cons item items ih =>
    rw [List.cons_append, collect, collect, ih]
    cases item.instructions with
    | error e => rfl
    | ok is =>
      cases collect items with
      | error e => rfl
      | ok js => cases collect rest <;> simp [Except.map]

end Item

namespace Builder

variable {b : Builder}

/-- Adds instructions after the others. -/
def addAll (b : Builder) (is : List Instruction) : Builder :=
  { b with instructions := b.instructions ++ is }

theorem addAll_nil (b : Builder) : b.addAll [] = b := by simp [addAll]

theorem addAll_append (b : Builder) (is js : List Instruction) :
    (b.addAll is).addAll js = b.addAll (is ++ js) := by simp [addAll]

theorem declare_cons (b : Builder) (d : Declaration) (ds : List Declaration) :
    b.declare b.groups.head?.isSome (d :: ds) =
      d.instruction b.groups.head? >>= fun i => (b.add i).declare b.groups.head?.isSome ds := by
  rw [declare, Declaration.instruction]
  cases d.entry b.groups.head?.isSome with
  | error e => rfl
  | ok e =>
    simp only [ok_bind, register_eq]
    cases e.instruction b.groups.head? <;> rfl

/-- Declared instructions are added under the opcode of the innermost open group, or under none. -/
theorem declare_eq {enclosing : Option Text}
    (h : b.groups.head? = enclosing.map Pattern.number) (ds : List Declaration) :
    b.declare enclosing.isSome ds =
      (Item.collect (ds.map (.instruction enclosing))).map b.addAll := by
  have hsome : enclosing.isSome = b.groups.head?.isSome := by rw [h, Option.isSome_map]
  induction ds generalizing b with
  | nil => simp [declare, Item.collect, Except.map, addAll_nil]
  | cons d ds ih =>
    rw [List.map_cons, Item.collect, Item.instructions, hsome, declare_cons, ← hsome, h]
    cases d.instruction (enclosing.map Pattern.number) with
    | error e => rfl
    | ok i =>
      -- adding an instruction opens and closes no group
      have hadd : (b.add i).declare enclosing.isSome ds = _ := ih h hsome
      simp only [ok_bind, Except.map, hadd]
      cases Item.collect (ds.map (.instruction enclosing)) with
      | error e => rfl
      | ok is => simp [addAll, add]

mutual

theorem declareGroup_eq (b : Builder) (g : Group) :
    b.declareGroup g = (Item.collect (Item.ofGroup g)).map b.addAll := by
  match g with
  | .mk opcode ds gs =>
    rw [declareGroup, Item.ofGroup, Item.collect, Item.instructions]
    cases hx : Declaration.nibble opcode with
    | error e => rfl
    | ok x =>
      -- while the group's own instructions are declared, its opcode is the innermost one
      have hopen : (b.enter x).groups.head? = (some opcode).map Pattern.number := by
        rw [Option.map_some, Declaration.number_of_nibble hx]
        rfl
      have hdeclare : (b.enter x).declare true ds =
          (Item.collect (ds.map (.instruction (some opcode)))).map (b.enter x).addAll :=
        declare_eq hopen ds
      simp only [ok_bind, Except.map, Item.collect_append, hdeclare, List.nil_append]
      cases Item.collect (ds.map (.instruction (some opcode))) with
      | error e => rfl
      | ok is =>
        simp only [ok_bind, declareGroups_eq, Except.map]
        cases Item.collect (Item.ofGroups gs) with
        | error e => rfl
        | ok js => simp [addAll, enter, leave, pure, Except.pure]

theorem declareGroups_eq (b : Builder) (gs : List Group) :
    b.declareGroups gs = (Item.collect (Item.ofGroups gs)).map b.addAll := by
  match gs with
  | [] => simp [declareGroups, Item.ofGroups, Item.collect, Except.map, addAll_nil]
  | g :: gs =>
    rw [declareGroups, Item.ofGroups, Item.collect_append, declareGroup_eq]
    cases Item.collect (Item.ofGroup g) with
    | error e => rfl
    | ok is =>
      simp only [ok_bind, Except.map, declareGroups_eq]
      cases Item.collect (Item.ofGroups gs) with
      | error e => rfl
      | ok js => simp [addAll_append]

end

end Builder

theorem Description.catalog_eq (d : Description) :
    d.catalog = (Item.collect d.items).map Catalog.mk := by
  have hclosed : Builder.empty.groups.head? = (none : Option Text).map Pattern.number := rfl
  have hdeclare : Builder.empty.declare false d.instructions =
      (Item.collect (d.instructions.map (.instruction none))).map Builder.empty.addAll :=
    Builder.declare_eq hclosed d.instructions
  rw [catalog, hdeclare, items, Item.collect_append]
  cases Item.collect (d.instructions.map (.instruction none)) with
  | error e => rfl
  | ok is =>
    simp only [ok_bind, Except.map, Builder.declareGroups_eq]
    cases Item.collect (Item.ofGroups d.groups) with
    | error e => rfl
    | ok js => simp [Builder.addAll, Builder.empty, Builder.catalog, pure, Except.pure]

end Asm16
