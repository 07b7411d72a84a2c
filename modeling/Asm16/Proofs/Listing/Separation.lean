-- SUMMARY: A label before an instruction means the same as the label on a line of its own.
import Asm16.Proofs.Line.Label
import Asm16.Proofs.Listing.Alike
import Asm16.Proofs.Listing.Renumbering

/-!
# Labels on lines of their own

A label may stand before an instruction or on the line before it. The two ways differ in one thing:
code that stands after a label is not looked at for another one, code on a line of its own is. So what
has to be shown is that no text that is encoded as an instruction is a label line. Its first word would
have a colon in it, or its first operand would begin with one. But every format has a register for its
first operand.
-/

namespace Asm16

variable {catalog : Catalog} {labels : LabelTable} {here : Address} {l : Line}
  {lines others before after : List Line} {e : Encoding} {source edited name rest : Text}
  {listing other : Listing} {σ : Nat → Nat}

namespace Line

/-- The first word of the text, if it has one, has no colon in it. -/
def StartsPlain (t : Text) : Prop := ∀ w ∈ t.words.head?, ':' ∉ w

instance (t : Text) : Decidable (StartsPlain t) :=
  inferInstanceAs (Decidable (∀ w ∈ t.words.head?, _))

/-- The second texts are the first, where one that has a label and code is split in two. -/
inductive LabelApart : List Text → List Text → Prop where
  | intro {before after t name rest} :
      splitLabel t = some (name, rest) → rest ≠ [] → StartsPlain rest →
      LabelApart (before ++ t :: after) (before ++ (name ++ [':']) :: rest :: after)

/-- The second source text is the first, where a line that has a label and code is split in two. -/
inductive LabelApartIn : Text → Text → Prop where
  | intro {pre raw post name rest} :
      AtLineStart pre → '\n' ∉ raw → AtLineEnd post →
      splitLabel (clean raw) = some (name, rest) → rest ≠ [] → StartsPlain rest →
      LabelApartIn (pre ++ (raw ++ post)) (pre ++ (name ++ ':' :: '\n' :: (rest ++ post)))

/-- A text that is encoded as an instruction is no label line. -/
theorem splitLabel_of_encode (h : l.encode catalog labels here = .ok e)
    (hplain : StartsPlain l.text) : splitLabel l.text = none := by
  rw [Option.eq_none_iff_forall_not_mem]
  rintro ⟨name, rest⟩ hsplit
  obtain ⟨i, operands, _, _, _, ⟨first, hwords, -⟩, hreads, -, -⟩ := encode_eq_ok_iff.1 h
  obtain ⟨v, ws, hlabel⟩ | ⟨v, ws, hlabel⟩ := words_of_splitLabel hsplit
  · exact hplain (name ++ ':' :: v) (by rw [hlabel]; rfl) (by simp)
  · obtain ⟨a, as, n, hoperands, c, digits, rfl, hc, -⟩ := hreads.exists_register
    -- the first operand would begin with a colon and with the letter of a register
    rw [hwords, hoperands] at hlabel
    obtain ⟨rfl, -⟩ := List.cons.inj (List.cons.inj (List.cons.inj hlabel).2).1
    rcases hc with hc | hc <;> exact absurd hc (by decide)

/-! ## Source texts -/

theorem clean_definition {t : Text} (h : splitLabel (clean t) = some (name, rest)) :
    clean (name ++ [':']) = name ++ [':'] := by
  have hname := (splitLabel_eq_some_iff.1 h).1
  have hcomment : ';' ∉ name ++ [':'] := by
    rw [List.mem_append, List.mem_singleton, not_or]
    exact ⟨fun hmem => not_mem_clean t ((subset_of_splitLabel h).1 hmem), by decide⟩
  rw [clean_of_not_mem hcomment, Text.trim_of_no_blank]
  rw [List.forall_mem_append, List.forall_mem_singleton]
  exact ⟨fun c hc => isBlank_of_not_isSeparator (hname.separator c hc), by decide⟩

theorem clean_rest {t : Text} (h : splitLabel (clean t) = some (name, rest)) : clean rest = rest := by
  rw [clean_of_not_mem fun hmem => not_mem_clean t ((subset_of_splitLabel h).2 hmem),
    trim_of_splitLabel h]

theorem IsLabelName.lineFeed_not_mem (h : IsLabelName name) : '\n' ∉ name ++ [':'] := by
  rw [List.mem_append, List.mem_singleton, not_or]
  exact ⟨fun hmem => absurd (h.separator _ hmem) (by decide), by decide⟩

/-- In the lines of the source text, one line is split in two. -/
theorem LabelApartIn.labelApart (h : LabelApartIn source edited) :
    LabelApart ((ofSource source).map text) ((ofSource edited).map text) := by
  cases h with
  | @intro pre raw post name rest hpre hraw hpost hsplit hrest hplain =>
    have hname := (splitLabel_eq_some_iff.1 hsplit).1
    obtain ⟨-, hsubset⟩ := subset_of_splitLabel hsplit
    have hnonempty : clean raw ≠ [] := by
      intro hnil
      rw [hnil, List.subset_nil] at hsubset
      exact hrest hsubset
    have hrestLine : '\n' ∉ rest := fun hmem => (tidy_clean hraw).line (hsubset hmem)
    obtain ⟨as, -, has⟩ := hpre.cutAt
    obtain ⟨w, bs, hw, hbs⟩ := hpost.cutAt
    have hpieces : Text.cutAt (· == '\n') (name ++ ':' :: '\n' :: (rest ++ post)) =
        (name ++ [':']) :: (rest ++ w) :: bs := by
      rw [List.append_cons, cutAt_append_lineFeed, cutAt_of_not_mem hname.lineFeed_not_mem,
        hbs rest hrestLine, List.singleton_append]
    have htexts : ∀ cs : List Text, ((as ++ cs).map clean).filter (!·.isEmpty) =
        (as.map clean).filter (!·.isEmpty) ++ (cs.map clean).filter (!·.isEmpty) := by
      intro cs
      rw [List.map_append, List.filter_append]
    rw [map_text_ofSource, map_text_ofSource, has, has, hbs raw hraw, hpieces, htexts, htexts]
    simp only [List.map_cons, clean_append_right hw, clean_definition hsplit, clean_rest hsplit]
    rw [List.filter_cons_of_pos (by simpa using hnonempty), List.filter_cons_of_pos (by simp),
      List.filter_cons_of_pos (by simpa using hrest)]
    exact .intro hsplit hrest hplain

end Line

namespace Listing

/-- The second listing shows the same as the first, and its encodings are the same one by one. -/
structure SameEncodings (first second : Listing) : Prop extends SameCode first second where
  encodings : List.Forall₂ Encoding.Alike first.encodings second.encodings

/-! ## Programs with the same texts -/

theorem sameEncodings_of_renumber (h : listing.renumber σ = other.renumber σ) :
    SameEncodings listing other where
  labels := (congrArg Listing.labels h).symm
  words := by rw [← words_renumber other, ← h, words_renumber]
  addresses := by rw [← map_address_renumber other, ← h, map_address_renumber]
  endAddress := by rw [← endAddress?_renumber other, ← h, endAddress?_renumber]
  render := by rw [← render_renumber other, ← h, render_renumber]
  encodings := by
    have hencodings : listing.encodings.map (Encoding.renumber σ) =
        other.encodings.map (Encoding.renumber σ) := congrArg Listing.encodings h
    rw [← List.forall₂_eq_eq_eq, List.forall₂_map_left_iff, List.forall₂_map_right_iff] at hencodings
    exact hencodings.imp fun e f hef =>
      ⟨(congrArg Encoding.address hef).symm, (congrArg Encoding.word hef).symm,
        (congrArg Encoding.immediate hef).symm⟩

/-- Lines with the same texts make the same listing, but for their numbers. -/
theorem ofLines_of_texts_eq (htexts : others.map Line.text = lines.map Line.text)
    (h : ofLines catalog lines = .ok listing) :
    ∃ other, ofLines catalog others = .ok other ∧ SameEncodings listing other := by
  have herase : ∀ ls : List Line, ls.map (Line.renumber fun _ => 0) =
      (ls.map Line.text).map (Line.mk 0) := by
    intro ls
    rw [List.map_map]
    rfl
  have hresults := ofLines_renumber (fun _ => 0) catalog others
  rw [herase, htexts, ← herase, ofLines_renumber, h] at hresults
  cases hother : ofLines catalog others with
  | error d =>
    rw [hother] at hresults
    cases hresults
  | ok other =>
    rw [hother] at hresults
    exact ⟨other, rfl, sameEncodings_of_renumber (Except.ok.inj hresults)⟩

/-! ## The label apart -/

/-- A label may be taken off a line if the code that is left is no label line. The listing is the same
as before, down to the lines in it. -/
theorem ofLines_definition_withoutLabel (hsplit : Line.splitLabel l.text = some (name, rest))
    (hrest : rest ≠ []) (hnone : Line.splitLabel rest = none)
    (h : ofLines catalog (before ++ l :: after) = .ok listing) :
    ofLines catalog (before ++ .definition l.number name :: l.withoutLabel :: after) =
      .ok listing := by
  obtain ⟨hknown, hlabels, hes⟩ := ofLines_eq_ok_iff.1 h
  have hname := (Line.splitLabel_eq_some_iff.1 hsplit).1
  have hdefinition := Line.code_definition hname l.number
  have hlabel : l.withoutLabel.label? = none := by
    rw [Line.label?, Line.withoutLabel, Line.code_of_splitLabel hsplit, hnone, Option.map_none]
  have hcode : l.withoutLabel.code = l.code := by
    rw [Line.withoutLabel, Line.code, Line.code_of_splitLabel hsplit, hnone]
  have hsteps : l.StepsAlike catalog l.withoutLabel :=
    ⟨by rw [hcode], by rw [Line.mnemonic, Line.mnemonic, hcode]⟩
  refine ofLines_eq_ok_iff.2 ⟨?_, ?_, ?_⟩
  · rw [Layout.known_append, Layout.known_cons_iff] at hknown
    rw [Layout.known_append_cons_of_no_code hdefinition, Layout.known_append, Layout.known_cons_iff, hcode,
      hsteps.lookup]
    exact hknown
  · -- both ways the label is defined at the address that the lines before it reach
    have hdefine : ∀ table here, l.withoutLabel.define
        ((Line.definition l.number name).define table here) here = l.define table here := by
      intro table here
      simp only [Line.define, hlabel, Line.label?_definition hname, Line.label?_of_splitLabel hsplit]
    rw [hlabels, Layout.table_append_cons_of_no_code hdefinition, Layout.table_append, Layout.table, Layout.table,
      hdefine, hsteps.size]
  · have hne : l.code ≠ [] := by rwa [Line.code_of_splitLabel hsplit]
    have hsame : l.withoutLabel.withoutLabel = l.withoutLabel := by
      rw [Line.withoutLabel, hcode, Line.withoutLabel]
    rw [Layout.kept_append_cons_of_code hne] at hes
    rw [Layout.kept_append_cons_of_no_code hdefinition, Layout.kept_append_cons_of_code (by rwa [hcode]), hsame]
    exact hes

theorem exists_of_labelApart
    (hapart : Line.LabelApart (lines.map Line.text) (others.map Line.text))
    (h : ofLines catalog lines = .ok listing) :
    ∃ apart, ofLines catalog others = .ok apart ∧ SameEncodings listing apart := by
  generalize hlines : lines.map Line.text = texts at hapart
  generalize hothers : others.map Line.text = apart at hapart
  cases hapart with
  | intro hsplit hrest hplain =>
    obtain ⟨before, after, rfl, rfl, htail⟩ := List.map_eq_append_iff.1 hlines
    obtain ⟨l, after, rfl, rfl, rfl⟩ := List.map_eq_cons_iff.1 htail
    have htext : l.withoutLabel.text = _ := Line.code_of_splitLabel hsplit
    obtain ⟨-, -, hes⟩ := ofLines_eq_ok_iff.1 h
    -- the code of the line is encoded, so it is no label line
    have hkept : l.withoutLabel ∈ listing.encodings.map (·.line) := by
      rw [hes.map_line, Layout.kept_append_cons_of_code (by rwa [Line.code_of_splitLabel hsplit])]
      simp
    obtain ⟨e, he, heq⟩ := List.mem_map.1 hkept
    have hencode := hes.encode_of_mem he
    rw [heq] at hencode
    have hnone := Line.splitLabel_of_encode hencode (by rwa [htext])
    rw [htext] at hnone
    refine ofLines_of_texts_eq ?_ (ofLines_definition_withoutLabel hsplit hrest hnone h)
    rw [hothers, List.map_append, List.map_cons, List.map_cons, htext]
    rfl

/-- A line with a label and code may be split in two, in the lines of a program and in a source text.
If the program is assembled, so is the other one. It has the same labels, addresses, words, immediates,
end and text. -/
theorem ofLines_labelApart (catalog : Catalog) :
    (∀ lines others listing, Line.LabelApart (lines.map Line.text) (others.map Line.text) →
      ofLines catalog lines = .ok listing →
      ∃ apart, ofLines catalog others = .ok apart ∧ SameEncodings listing apart) ∧
    ∀ source edited listing, Line.LabelApartIn source edited →
      ofSource catalog source = .ok listing →
      ∃ apart, ofSource catalog edited = .ok apart ∧ SameEncodings listing apart :=
  ⟨fun _ _ _ hapart h => exists_of_labelApart hapart h,
    fun _ _ _ hapart h => exists_of_labelApart hapart.labelApart h⟩

/-- A label before a branch to itself, in lines under any numbers, and in a source text where there is
a blank before its colon. -/
theorem ofLines_labelApart_branch :
    let lines : List Line := [⟨1, "LI r1, 9".toList⟩, ⟨2, "a: BR r0, a(r1)".toList⟩]
    let others : List Line := [⟨7, "LI r1, 9".toList⟩, ⟨3, "a:".toList⟩, ⟨3, "BR r0, a(r1)".toList⟩]
    let pre := "LI r1, 9\n".toList
    let post := "\r\nLIW r2, a".toList
    (∃ listing apart, ofLines Catalog.sample lines = .ok listing ∧
      ofLines Catalog.sample others = .ok apart ∧ SameEncodings listing apart) ∧
    ∃ listing apart,
      ofSource Catalog.sample (pre ++ ("  a : BR r0, a(r1) ; loop".toList ++ post)) = .ok listing ∧
      ofSource Catalog.sample (pre ++ "a:\nBR r0, a(r1)".toList ++ post) = .ok apart ∧
      SameEncodings listing apart := by
  intro lines others pre post
  obtain ⟨hlines, hsource⟩ := ofLines_labelApart Catalog.sample
  have hplain : Line.StartsPlain "BR r0, a(r1)".toList := by decide
  constructor
  · have hapart : Line.LabelApart (["LI r1, 9".toList] ++ "a: BR r0, a(r1)".toList :: [])
        (["LI r1, 9".toList] ++ ("a".toList ++ [':']) :: "BR r0, a(r1)".toList :: []) :=
      .intro rfl (by decide) hplain
    have hok : ofLines Catalog.sample lines = .ok _ := rfl
    obtain ⟨apart, happart, hsame⟩ := hlines lines others _ hapart hok
    exact ⟨_, apart, hok, happart, hsame⟩
  · have hapart : Line.LabelApartIn (pre ++ ("  a : BR r0, a(r1) ; loop".toList ++ post))
        (pre ++ ("a".toList ++ ':' :: '\n' :: ("BR r0, a(r1)".toList ++ post))) :=
      .intro (.inr ⟨"LI r1, 9".toList, rfl⟩) (by decide) (.inr ⟨"LIW r2, a".toList, .inr rfl⟩) rfl
        (by decide) hplain
    have hok : ofSource Catalog.sample (pre ++ ("  a : BR r0, a(r1) ; loop".toList ++ post)) =
      .ok _ := rfl
    obtain ⟨apart, happart, hsame⟩ := hsource _ _ _ hapart hok
    exact ⟨_, apart, hok, happart, hsame⟩

end Listing
end Asm16
