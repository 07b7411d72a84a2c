-- SUMMARY: A run of definitions: what each call answers, the table it leaves, and its sorted view.
import Asm16.Proofs.Layout.Table
import Mathlib.Data.Finset.Card
import Mathlib.Data.Finset.Dedup
import Mathlib.Data.List.Induction

/-!
# Runs of definitions

The first definition of a name stands, so a table is told by the run of definitions that made it: a name
is looked up as its first definition, and there is one entry for each name. The sorted view puts the entries
in order. Two entries never stand level in that order, since names are told apart by their UTF-8 bytes, so
there is only one such view: neither the order in which the entries are enumerated nor the sorting matters.
-/

namespace Asm16

/-- The UTF-8 bytes of a text. -/
def Text.bytes (t : Text) : List UInt8 := (String.ofList t).toByteArray.data.toList

theorem Text.bytes_eq_flatMap (t : Text) : t.bytes = t.flatMap String.utf8EncodeChar := by
  rw [Text.bytes, String.toByteArray_ofList, List.utf8Encode]
  simp

/-- Texts are told apart by their bytes. -/
theorem Text.bytes_injective : Function.Injective Text.bytes := by
  intro t u h
  rw [bytes, bytes, Array.toList_inj] at h
  exact String.ofList_injective (String.toByteArray_inj.1 (ByteArray.ext h))

namespace LabelTable

/-- The label has the lower address, or the same one and the name that comes first by its bytes. -/
def Before (x y : Text × Address) : Prop := x.2 < y.2 ∨ x.2 = y.2 ∧ x.1.bytes < y.1.bytes

/-- The first of the definitions of the name gives it the address. -/
def DefinesFirst (ds : List (Text × Address)) (name : Text) (a : Address) : Prop :=
  ∃ before after, ds = before ++ (name, a) :: after ∧ name ∉ before.map Prod.fst

/-- The labels that a run of definitions makes, strictly in order: each name once, with the address of its
first definition. -/
structure IsView (ds labels : List (Text × Address)) : Prop where
  ordered : labels.Pairwise Before
  once : (labels.map Prod.fst).Nodup
  first : ∀ name a, (name, a) ∈ labels ↔ DefinesFirst ds name a

/-- The same definitions in another order, but those of each single name in the same. -/
structure Reorders (ds es : List (Text × Address)) : Prop where
  perm : es.Perm ds
  order : ∀ name, es.filter (·.1 == name) = ds.filter (·.1 == name)

variable {x y z : Text × Address} {ds es labels : List (Text × Address)} {t u : LabelTable} {name : Text}
  {a : Address}

/-! ## The order of the sorted view -/

theorem precedes_iff : precedes x y = true ↔ x.2 < y.2 ∨ x.2 = y.2 ∧ x.1.bytes ≤ y.1.bytes := by
  simp only [precedes, Bool.or_eq_true, Bool.and_eq_true, decide_eq_true_eq, beq_iff_eq, BitVec.lt_def,
    Text.bytes_eq_flatMap]

theorem precedes_trans (h : precedes x y = true) (k : precedes y z = true) : precedes x z = true := by
  rw [precedes_iff] at h k ⊢
  obtain h | ⟨h, hbytes⟩ := h <;> obtain k | ⟨k, kbytes⟩ := k
  · exact .inl (BitVec.lt_trans h k)
  · exact .inl (k ▸ h)
  · exact .inl (h ▸ k)
  · exact .inr ⟨h.trans k, List.le_trans hbytes kbytes⟩

theorem precedes_total (x y : Text × Address) : (precedes x y || precedes y x) = true := by
  rw [Bool.or_eq_true, precedes_iff, precedes_iff]
  by_cases h : x.2 = y.2
  · obtain hbytes | hbytes := List.le_total x.1.bytes y.1.bytes
    · exact .inl (.inr ⟨h, hbytes⟩)
    · exact .inr (.inr ⟨h.symm, hbytes⟩)
  · have hne : x.2.toNat ≠ y.2.toNat := fun e => h (BitVec.eq_of_toNat_eq e)
    simp only [BitVec.lt_def]
    omega

/-- No two labels stand level. -/
theorem precedes_antisymm (h : precedes x y = true) (k : precedes y x = true) : x = y := by
  rw [precedes_iff] at h k
  obtain h | ⟨h, hbytes⟩ := h <;> obtain k | ⟨k, kbytes⟩ := k
  · exact absurd (BitVec.lt_trans h k) (BitVec.lt_irrefl _)
  · exact absurd (k ▸ h) (BitVec.lt_irrefl _)
  · exact absurd (h ▸ k) (BitVec.lt_irrefl _)
  · exact Prod.ext (Text.bytes_injective (List.le_antisymm hbytes kbytes)) h

theorem precedes_of_before (h : Before x y) : precedes x y = true := by
  rw [precedes_iff]
  exact h.imp_right fun ⟨haddress, hbytes⟩ => ⟨haddress, List.le_of_lt hbytes⟩

/-- Labels of two names are strictly in order. -/
theorem before_of_precedes (h : precedes x y = true) (hne : x.1 ≠ y.1) : Before x y := by
  rw [precedes_iff] at h
  exact h.imp_right fun ⟨haddress, hbytes⟩ =>
    ⟨haddress, Std.lt_of_le_of_ne hbytes fun e => hne (Text.bytes_injective e)⟩

/-! ## The sorted view -/

theorem perm_sorted (t : LabelTable) : t.sorted.Perm t.entries := List.mergeSort_perm _ _

theorem mem_sorted_iff : (name, a) ∈ t.sorted ↔ t.get? name = some a :=
  t.perm_sorted.mem_iff.trans mem_entries_iff

theorem nodup_names_sorted (t : LabelTable) : (t.sorted.map Prod.fst).Nodup :=
  (t.perm_sorted.map Prod.fst).nodup_iff.2 t.distinct

theorem pairwise_sorted (t : LabelTable) : t.sorted.Pairwise Before := by
  have hsorted : t.sorted.Pairwise fun x y => precedes x y = true :=
    @List.pairwise_mergeSort _ precedes (fun _ _ _ => precedes_trans) precedes_total _
  have hnames : t.sorted.Pairwise fun x y => x.1 ≠ y.1 := List.pairwise_map.1 t.nodup_names_sorted
  exact hsorted.imp₂ (fun _ _ => before_of_precedes) hnames

/-- However the entries are enumerated and whichever way they are sorted, the view is the same. -/
theorem eq_sorted_of_perm (hperm : labels.Perm t.entries)
    (hsorted : labels.Pairwise fun x y => precedes x y = true) : labels = t.sorted := by
  refine List.Perm.eq_of_pairwise (fun _ _ _ _ => precedes_antisymm) hsorted ?_
    (hperm.trans t.perm_sorted.symm)
  exact t.pairwise_sorted.imp precedes_of_before

theorem sorted_eq_of_get? (h : ∀ name, t.get? name = u.get? name) : t.sorted = u.sorted := by
  refine eq_sorted_of_perm ?_ (t.pairwise_sorted.imp precedes_of_before)
  refine t.perm_sorted.trans ((List.perm_ext_iff_of_nodup t.nodup_entries u.nodup_entries).2 ?_)
  rintro ⟨name, a⟩
  rw [mem_entries_iff, mem_entries_iff, h]

/-! ## Runs -/

theorem ofList_concat (ds : List (Text × Address)) (name : Text) (a : Address) :
    ofList (ds ++ [(name, a)]) = ((ofList ds).define name a).2 := by
  rw [ofList, List.foldl_append]
  rfl

/-- A name is looked up as its first definition. -/
theorem get?_ofList (ds : List (Text × Address)) (name : Text) :
    (ofList ds).get? name = ds.lookup name := by
  induction ds using List.reverseRecOn with
  | nil => rfl
  | append_singleton ds d ih =>
    rw [ofList_concat, get?_define, List.lookup_append, List.lookup_cons, ih]
    by_cases hname : name = d.1
    · subst hname
      rw [if_pos rfl, beq_self_eq_true, ih]
      cases ds.lookup d.1 <;> rfl
    · rw [if_neg hname, beq_eq_false_iff_ne.2 hname, List.lookup_nil, Option.or_none]

theorem definesFirst_iff : DefinesFirst ds name a ↔ ds.lookup name = some a := by
  have hfresh : ∀ before : List (Text × Address),
      name ∉ before.map Prod.fst ↔ ∀ p ∈ before, (name != p.1) = true := by
    intro before
    simp only [List.mem_map, not_exists, not_and, bne_iff_ne]
    exact forall_congr' fun p => imp_congr_right fun _ => ne_comm
  rw [List.lookup_eq_some_iff]
  simp only [DefinesFirst, hfresh]

theorem lookup_eq_none_iff : ds.lookup name = none ↔ name ∉ ds.map Prod.fst := by
  rw [List.lookup_eq_none_iff]
  simp only [List.mem_map, not_exists, not_and, bne_iff_ne]
  exact forall_congr' fun p => imp_congr_right fun _ => ne_comm

/-- Definitions of other names do not count for a look-up. -/
theorem lookup_filter (ds : List (Text × Address)) (name : Text) :
    (ds.filter (·.1 == name)).lookup name = ds.lookup name := by
  induction ds with
  | nil => rfl
  | cons d ds ih =>
    by_cases hname : d.1 = name
    · rw [List.filter_cons_of_pos (by simpa using hname), List.lookup_cons, List.lookup_cons, ih]
    · rw [List.filter_cons_of_neg (by simpa using hname), List.lookup_cons,
        beq_eq_false_iff_ne.2 (Ne.symm hname), ih]

theorem isView_sorted (ds : List (Text × Address)) : IsView ds (ofList ds).sorted where
  ordered := pairwise_sorted _
  once := nodup_names_sorted _
  first name a := by rw [mem_sorted_iff, get?_ofList, definesFirst_iff]

theorem IsView.eq_sorted (h : IsView ds labels) : labels = (ofList ds).sorted := by
  refine eq_sorted_of_perm ?_ (h.ordered.imp precedes_of_before)
  refine (List.perm_ext_iff_of_nodup (.of_map _ h.once) (nodup_entries _)).2 ?_
  rintro ⟨name, a⟩
  rw [h.first, mem_entries_iff, get?_ofList, definesFirst_iff]

theorem size_ofList (ds : List (Text × Address)) :
    (ofList ds).size = (ds.map Prod.fst).toFinset.card := by
  have hnames : ((ofList ds).entries.map Prod.fst).toFinset = (ds.map Prod.fst).toFinset := by
    ext name
    rw [List.mem_toFinset, List.mem_toFinset, ← contains_iff_mem, contains, get?_ofList,
      ← Option.ne_none_iff_isSome, Ne, lookup_eq_none_iff, not_not]
  rw [← hnames, List.toFinset_card_of_nodup (ofList ds).distinct, List.length_map, size]

/-- Definitions of two names may change places. -/
theorem Reorders.swap (h : x.1 ≠ y.1) (ds : List (Text × Address)) :
    Reorders (x :: y :: ds) (y :: x :: ds) := by
  refine ⟨List.Perm.swap x y ds, fun name => ?_⟩
  simp only [List.filter_cons]
  by_cases hx : x.1 = name
  · have hy : (y.1 == name) = false := beq_eq_false_iff_ne.2 fun hy => h (hx.trans hy.symm)
    rw [hy]
    rfl
  · rw [beq_eq_false_iff_ne.2 hx]
    rfl

/-- In a run of definitions a call defines its name unless an earlier one did. After the run each name
has the address of its first definition, and the labels are counted by their names. There is just one view
of them in order, and it depends only on the order of the definitions of each single name. -/
theorem ofList_definitions (ds : List (Text × Address)) :
    (∀ before name a after, ds = before ++ (name, a) :: after →
      (((ofList before).define name a).1 = true ↔ name ∉ before.map Prod.fst)) ∧
    (∀ name a, (ofList ds).get? name = some a ↔ DefinesFirst ds name a) ∧
    (∀ name, (ofList ds).get? name = none ↔ name ∉ ds.map Prod.fst) ∧
    (ofList ds).size = (ds.map Prod.fst).toFinset.card ∧
    (∀ labels, labels = (ofList ds).sorted ↔ IsView ds labels) ∧
    ∀ es, Reorders ds es → (ofList es).sorted = (ofList ds).sorted := by
  refine ⟨?_, ?_, ?_, size_ofList ds, ?_, ?_⟩
  · intro before name a after _
    rw [← lookup_eq_none_iff, ← get?_ofList, define]
    split
    · rename_i h
      simpa [contains, ← Option.isSome_iff_ne_none] using h
    · rename_i h
      simpa [contains] using h
  · intro name a
    rw [get?_ofList, definesFirst_iff]
  · intro name
    rw [get?_ofList, lookup_eq_none_iff]
  · intro labels
    exact ⟨fun h => h ▸ isView_sorted ds, IsView.eq_sorted⟩
  · intro es h
    refine sorted_eq_of_get? fun name => ?_
    rw [get?_ofList, get?_ofList, ← lookup_filter es, h.order, lookup_filter]

/-- A name is defined twice and shares its first address with another, whose definition may come before or
after it. Capital letters come first. -/
theorem ofList_definitions_reordered :
    let start := "start".toList
    let ds : List (Text × Address) := [(start, 0), ("Start".toList, 0), (start, 8)]
    let es : List (Text × Address) := [("Start".toList, 0), (start, 0), (start, 8)]
    Reorders ds es ∧ (ofList es).sorted = (ofList ds).sorted ∧
      IsView ds [("Start".toList, 0), (start, 0)] ∧ (ofList ds).get? start = some 0 ∧
      (((ofList [(start, 0), ("Start".toList, 0)]).define start 8).1 = true ↔
        start ∉ [start, "Start".toList]) := by
  intro start ds es
  obtain ⟨hcall, hget, -, -, hview, hreorder⟩ := ofList_definitions ds
  have horder : Reorders ds es := .swap (by decide) _
  have hsorted : [("Start".toList, 0), (start, 0)] = (ofList ds).sorted :=
    eq_sorted_of_perm (.refl _) (List.pairwise_pair.2 rfl)
  refine ⟨horder, hreorder es horder, (hview _).1 hsorted, (hget start 0).2 ?_, ?_⟩
  · exact ⟨[], _, rfl, List.not_mem_nil⟩
  · exact hcall [(start, 0), ("Start".toList, 0)] start 8 [] rfl

end LabelTable
end Asm16
