/-
How a text of figures is read.

A line that is written as a name, a blank and a value shows that value for that name, and comments and
empty lines show nothing, so lines that `Shows` some figures do not have to be read again.  Of the figures
of a text, the ones that are named after a histogram are its block: what is asked of a histogram can be
asked of its block.
-/
import EmbedServer.Metrics.Reading
import EmbedServer.Decimal.Style
import Mathlib.Data.List.Basic

namespace EmbedServer.Metrics

/-! ### Lines -/

/-- A text without a line feed. -/
def OneLine (s : String) : Prop := '\n' ∉ s.toList

instance (s : String) : Decidable (OneLine s) := inferInstanceAs (Decidable (¬_))

theorem OneLine.append {s t : String} (hs : OneLine s) (ht : OneLine t) : OneLine (s ++ t) := by
  unfold OneLine
  rw [String.toList_append, List.mem_append, not_or]
  exact ⟨hs, ht⟩

private theorem not_mem_toDigits {ch : Char} (h : ch.isDigit = false) (n : Nat) : ch ∉ Nat.toDigits 10 n := by
  intro hmem
  rw [Nat.isDigit_of_mem_toDigits (by decide) (by decide) hmem] at h
  cases h

theorem not_mem_toString {ch : Char} (h : ch.isDigit = false) (n : Nat) :
    ch ∉ (toString n).toList := by
  show ch ∉ n.repr.toList
  rw [Nat.toList_repr]
  exact not_mem_toDigits h n

theorem oneLine_toString (n : Nat) : OneLine (toString n) := not_mem_toString rfl n

theorem oneLine_fixed (places : Nat) (x : Float) : OneLine (Decimal.fixed places x) := by
  unfold Decimal.fixed
  split
  · decide
  · split <;> decide
  · rename_i negative m q _
    have hdigits : ∀ n k, '\n' ∉ List.replicate k '0' ++ Nat.toDigits 10 n := by
      intro n k hmem
      rcases List.mem_append.mp hmem with hzero | hdigit
      · cases List.eq_of_mem_replicate hzero
      · exact not_mem_toDigits rfl n hdigit
    unfold OneLine
    simp only [String.toList_ofList]
    generalize (Ratio.scaled m q (-(places : Int))).round = n
    have hall := hdigits n (places + 1 - (Nat.toDigits 10 n).length)
    generalize List.replicate (places + 1 - (Nat.toDigits 10 n).length) '0' ++ Nat.toDigits 10 n = ds at hall
    have htake : ∀ k, '\n' ∉ ds.take k := fun k hmem => hall (List.mem_of_mem_take hmem)
    have hdrop : ∀ k, '\n' ∉ ds.drop k := fun k hmem => hall (List.mem_of_mem_drop hmem)
    have htail : '\n' ∉ if places = 0 then [] else '.' :: ds.drop (ds.length - places) := by
      split
      · exact List.not_mem_nil
      · simp [hdrop]
    have hbody := fun hmem => (List.mem_append.mp hmem).elim (htake (ds.length - places)) htail
    split
    · simpa using hbody
    · exact hbody

/-- The lines of a text that was written line by line. -/
theorem figures_join {lines : List String} (h : ∀ l ∈ lines, OneLine l) :
    figures (String.join (lines.map (· ++ "\n"))) = lines.filterMap fun l => figure? l.toList := by
  have hsplit : (String.join (lines.map (· ++ "\n"))).toList.splitOn '\n' =
      lines.map String.toList ++ [[]] := by
    induction lines with
    | nil => rfl
    | cons l rest ih =>
        obtain ⟨hl, hrest⟩ := List.forall_mem_cons.mp h
        have hline : (String.join ((l :: rest).map (· ++ "\n"))).toList =
            l.toList ++ '\n' :: (String.join (rest.map (· ++ "\n"))).toList := by
          rw [String.toList_join, String.toList_join, List.map_cons, List.flatMap_cons,
            String.toList_append, List.append_assoc]
          rfl
        rw [hline, List.splitOn_append_cons_self_of_not_mem hl, ih hrest]
        rfl
  rw [figures, hsplit, List.filterMap_append, List.filterMap_map]
  exact List.append_nil _

/-! ### Series -/

/-- What a name has to be to be read as a series: not empty, no comment, on one line, without a blank. -/
def isSeries (s : String) : Bool :=
  s.toList.head?.any (· != '#') && s.toList.all fun ch => ch != '\n' && ch != ' '

theorem isSeries_append {s t : String} (hs : isSeries s = true)
    (ht : '\n' ∉ t.toList ∧ ' ' ∉ t.toList) : isSeries (s ++ t) = true := by
  obtain ⟨hhead, hall⟩ := Bool.and_eq_true_iff.mp hs
  have hrest : t.toList.all (fun ch => ch != '\n' && ch != ' ') = true := by
    rw [List.all_eq_true]
    intro ch hch
    have hfeed : ch ≠ '\n' := fun hc => ht.1 (hc ▸ hch)
    have hblank : ch ≠ ' ' := fun hc => ht.2 (hc ▸ hch)
    simp [hfeed, hblank]
  unfold isSeries
  rw [String.toList_append, List.all_append, hall, hrest, List.head?_append]
  cases hfirst : s.toList.head? with
  | none =>
      rw [hfirst] at hhead
      cases hhead
  | some ch =>
      rw [hfirst] at hhead
      exact Bool.and_eq_true_iff.mpr ⟨hhead, rfl⟩

private theorem oneLine_of_isSeries {s : String} (h : isSeries s = true) : OneLine s := by
  intro hmem
  have hch := List.all_eq_true.mp (Bool.and_eq_true_iff.mp h).2 _ hmem
  exact absurd hch (by decide)

/-- What stands before the first blank is the series, and what stands behind it the value. -/
theorem figure?_blank {series : List Char} (hhead : series.head?.any (· != '#') = true)
    (hblank : ' ' ∉ series) (value : List Char) :
    figure? (series ++ ' ' :: value) = some (String.ofList series, String.ofList value) := by
  cases series with
  | nil => cases hhead
  | cons ch rest =>
      have hne : ch ≠ '#' := by simpa using hhead
      have hnot : ∀ x ∈ ch :: rest, (x != ' ') = true := by
        intro x hx
        exact bne_iff_ne.mpr fun hc => hblank (hc ▸ hx)
      have htake : (ch :: rest ++ ' ' :: value).takeWhile (· != ' ') = ch :: rest := by
        rw [List.takeWhile_append_of_pos hnot]
        exact List.append_nil _
      unfold figure?
      split
      · contradiction
      · rename_i heq
        cases heq
        exact absurd rfl hne
      · simp only [htake]
        rw [List.drop_append]
        simp

/-- A line with a series and a value shows them. -/
theorem figure?_series {series : String} (h : isSeries series = true) (value : String) :
    figure? (series ++ " " ++ value).toList = some (series, value) := by
  obtain ⟨hhead, hall⟩ := Bool.and_eq_true_iff.mp h
  have hblank : ' ' ∉ series.toList :=
    fun hmem => absurd (List.all_eq_true.mp hall _ hmem) (by decide)
  have hline : (series ++ " " ++ value).toList = series.toList ++ ' ' :: value.toList := by
    rw [String.toList_append, String.toList_append, List.append_assoc]
    rfl
  rw [hline, figure?_blank hhead hblank, String.ofList_toList, String.ofList_toList]

/-! ### Lines and the figures they show -/

/-- Lines that show these figures and have no line feed. -/
structure Shows (lines : List String) (shown : List (String × String)) : Prop where
  oneLine : ∀ l ∈ lines, OneLine l
  figures : (lines.filterMap fun l => figure? l.toList) = shown

namespace Shows

theorem append {xs ys : List String} {fs gs : List (String × String)} (h : Shows xs fs)
    (h' : Shows ys gs) : Shows (xs ++ ys) (fs ++ gs) := by
  refine ⟨fun l hl => (List.mem_append.mp hl).elim (h.oneLine l) (h'.oneLine l), ?_⟩
  rw [List.filterMap_append, h.figures, h'.figures]

theorem nil : Shows [] [] := ⟨fun _ h => (nomatch h), rfl⟩

private theorem cons_none {l : String} {xs : List String} {fs : List (String × String)} (hl : OneLine l)
    (hnone : figure? l.toList = none) (h : Shows xs fs) : Shows (l :: xs) fs := by
  refine ⟨List.forall_mem_cons.mpr ⟨hl, h.oneLine⟩, ?_⟩
  rw [List.filterMap_cons, hnone, h.figures]

/-- A comment: what it is about stands behind the number sign and its kind. -/
theorem comment (opening : String) {text : String} {xs : List String} {fs : List (String × String)}
    (hopening : opening.toList.head? = some '#') (hline : OneLine opening) (htext : OneLine text)
    (h : Shows xs fs) : Shows ((opening ++ text) :: xs) fs := by
  refine h.cons_none (hline.append htext) ?_
  rw [String.toList_append]
  cases hcs : opening.toList with
  | nil =>
      rw [hcs] at hopening
      cases hopening
  | cons ch rest =>
      rw [hcs] at hopening
      cases hopening
      rfl

theorem empty {xs : List String} {fs : List (String × String)} (h : Shows xs fs) :
    Shows ("" :: xs) fs := h.cons_none (by decide) rfl

theorem series {s value : String} {xs : List String} {fs : List (String × String)}
    (hs : isSeries s = true) (hvalue : OneLine value) (h : Shows xs fs) :
    Shows ((s ++ " " ++ value) :: xs) ((s, value) :: fs) := by
  refine ⟨List.forall_mem_cons.mpr ⟨?_, h.oneLine⟩, ?_⟩
  · exact ((oneLine_of_isSeries hs).append (by decide)).append hvalue
  · rw [List.filterMap_cons, figure?_series hs, h.figures]

end Shows

/-- The two comments in front of the figures of a name. -/
theorem Shows.remarks {name help kind : String} (hname : isSeries name = true) (hhelp : OneLine help)
    (hkind : OneLine kind) {xs : List String} {fs : List (String × String)} (h : Shows xs fs) :
    Shows (("# HELP " ++ name ++ " " ++ help) :: ("# TYPE " ++ name ++ " " ++ kind) :: xs) fs := by
  have hline := (oneLine_of_isSeries hname).append (show OneLine " " by decide)
  have htype := h.comment "# TYPE " rfl (by decide) (hline.append hkind)
  have hboth := htype.comment "# HELP " rfl (by decide) (hline.append hhelp)
  simpa only [String.append_assoc] using hboth

/-! ### Blocks

A reader looks through the whole text for a series.  What it finds of a histogram is found in the
histogram's block already, so everything else can be left out.
-/

/-- Whether a series is named after a histogram. -/
def belongs (name series : String) : Bool := (name ++ "_").toList.isPrefixOf series.toList

/-- What begins with one of two names of which neither begins with the other does not begin with the other. -/
theorem not_prefix_append {a b : List Char} (h : ¬a <+: b) (h' : ¬b <+: a) (rest : List Char) :
    ¬a <+: b ++ rest := by
  intro hprefix
  rcases List.prefix_or_prefix_of_prefix hprefix (List.prefix_append b rest) with hab | hba
  · exact h hab
  · exact h' hba

theorem belongs_append (name rest : String) : belongs name (name ++ "_" ++ rest) = true := by
  unfold belongs
  rw [List.isPrefixOf_iff_prefix, String.toList_append (t := rest)]
  exact List.prefix_append _ _

theorem not_belongs_append {name other : String} (h : ¬(name ++ "_").toList <+: (other ++ "_").toList)
    (h' : ¬(other ++ "_").toList <+: (name ++ "_").toList) (rest : String) :
    belongs name (other ++ "_" ++ rest) = false := by
  unfold belongs
  rw [← Bool.not_eq_true, List.isPrefixOf_iff_prefix, String.toList_append (t := rest)]
  exact not_prefix_append h h' _

/-- What stands behind the name tells the buckets from the other figures. -/
theorem bound?_append {name rest : String} (h : ¬"_bucket\x7ble=\"".toList <+: rest.toList) :
    bound? name (name ++ rest) = none := by
  unfold bound?
  simp only
  rw [if_neg]
  rw [List.isPrefixOf_iff_prefix, String.toList_append, String.toList_append,
    List.prefix_append_right_inj]
  exact h

private theorem bound?_of_not_belongs {name series : String} (h : belongs name series = false) :
    bound? name series = none := by
  unfold bound?
  simp only
  rw [if_neg]
  intro hprefix
  rw [belongs, ← Bool.not_eq_true] at h
  refine h (List.isPrefixOf_iff_prefix.mpr (List.IsPrefix.trans ?_ (List.isPrefixOf_iff_prefix.mp hprefix)))
  rw [String.toList_append, String.toList_append, List.prefix_append_right_inj]
  decide

section Block

variable {text name : String}

/-- The block of a name in a text of which one part is named after it and the rest is not. -/
theorem blockOf_of_split {before own after : List (String × String)}
    (hfigures : figures text = before ++ own ++ after)
    (hbefore : ∀ f ∈ before, belongs name f.1 = false) (hown : ∀ f ∈ own, belongs name f.1 = true)
    (hafter : ∀ f ∈ after, belongs name f.1 = false) : blockOf text name = own := by
  have hnone : ∀ fs : List (String × String), (∀ f ∈ fs, belongs name f.1 = false) →
      (fs.filter fun f => belongs name f.1) = [] := by
    intro fs hfs
    refine List.filter_eq_nil_iff.mpr fun f hf => ?_
    rw [hfs f hf]
    exact Bool.false_ne_true
  show ((figures text).filter fun f => belongs name f.1) = _
  rw [hfigures, List.filter_append, List.filter_append, hnone before hbefore, hnone after hafter,
    List.filter_eq_self.mpr hown]
  simp

/-- The values of a series that is named after a histogram are found in its block. -/
theorem valuesOf_eq_block {series : String} (h : belongs name series = true) :
    valuesOf text series = ((blockOf text name).filter (·.1 == series)).map Prod.snd := by
  show _ = (((figures text).filter fun f => belongs name f.1).filter _).map Prod.snd
  rw [List.filter_filter, valuesOf]
  congr 1
  refine List.filter_congr fun f _ => ?_
  cases hseries : f.1 == series with
  | false => rfl
  | true => rw [beq_iff_eq.mp hseries, h, Bool.and_self]

/-- The buckets of a histogram are found in its block. -/
theorem bucketsOf_eq_block : bucketsOf text name =
    (blockOf text name).filterMap fun f => (bound? name f.1).map fun bound => (bound, f.2) := by
  show _ = ((figures text).filter fun f => belongs name f.1).filterMap _
  rw [List.filterMap_filter, bucketsOf]
  refine List.filterMap_congr fun f _ => ?_
  split
  · rfl
  · rename_i hother
    rw [bound?_of_not_belongs (Bool.eq_false_iff.mpr hother)]
    rfl

end Block

end EmbedServer.Metrics
