import Mathlib.Data.List.Forall2
import MacroRegions.Exchange.Reading
import MacroRegions.Exchange.Writing

/-!
Values with null fields left out.

A record is a map by the names of its fields: the order of the fields does not matter,
and a field that is null may as well be missing. What reads back from the values in a
record reads back from the record.
-/

namespace MacroRegions

namespace Exchange

/-- Some of the fields that are null are left out. The others keep their names and have
related values. -/
inductive OmitsNulls (related : Value → Value → Prop) :
    List (String × Value) → List (String × Value) → Prop where
  | nil : OmitsNulls related [] []
  | keep {name : String} {value value' : Value} {rest kept : List (String × Value)}
      (isRelated : related value value')
      (others : OmitsNulls related rest kept) :
      OmitsNulls related ((name, value) :: rest) ((name, value') :: kept)
  | leaveOut {name : String} {rest kept : List (String × Value)}
      (others : OmitsNulls related rest kept) :
      OmitsNulls related ((name, .null) :: rest) kept

/-- A value becomes another one when null fields are left out of any of its records and
the fields that are kept are put in any order. -/
inductive TrimsTo : Value → Value → Prop where
  | same (value : Value) : TrimsTo value value
  | list {items items' : List Value} (trimmed : List.Forall₂ TrimsTo items items') :
      TrimsTo (.list items) (.list items')
  | record {fields kept fields' : List (String × Value)}
      (omits : OmitsNulls TrimsTo fields kept)
      (reordered : kept.Perm fields') :
      TrimsTo (.record fields) (.record fields')

private theorem TrimsTo.ne_null
    {value value' : Value}
    (trims : TrimsTo value value')
    (present : value ≠ .null) :
    value' ≠ .null := by
  cases trims with
  | same => exact present
  | list => nofun
  | record => nofun

theorem TrimsTo.exists_items
    {items : List Value}
    {value' : Value}
    (trims : TrimsTo (.list items) value') :
    ∃ items', value' = .list items' ∧ List.Forall₂ TrimsTo items items' := by
  cases trims with
  | same => exact ⟨items, rfl, List.forall₂_same.2 fun item _ => .same item⟩
  | list trimmed => exact ⟨_, rfl, trimmed⟩

private theorem omitsNulls_self (fields : List (String × Value)) :
    OmitsNulls TrimsTo fields fields := by
  induction fields with
  | nil => exact .nil
  | cons field rest inductionHypothesis => exact .keep (.same _) inductionHypothesis

theorem TrimsTo.exists_fields
    {fields : List (String × Value)}
    {value' : Value}
    (trims : TrimsTo (.record fields) value') :
    ∃ kept fields',
      value' = .record fields' ∧ OmitsNulls TrimsTo fields kept ∧ kept.Perm fields' := by
  cases trims with
  | same => exact ⟨fields, fields, rfl, omitsNulls_self fields, .refl fields⟩
  | record omits reordered => exact ⟨_, _, rfl, omits, reordered⟩

theorem lookup_eq_none_iff {name : String} {fields : List (String × Value)} :
    lookup name fields = none ↔ name ∉ fields.map Prod.fst := by
  induction fields with
  | nil => simp [lookup]
  | cons field rest inductionHypothesis =>
      obtain ⟨key, value⟩ := field
      rw [lookup, List.map_cons, List.mem_cons, not_or]
      by_cases found : key = name
      · simp [found]
      · rw [if_neg found, inductionHypothesis]
        exact (and_iff_right (Ne.symm found)).symm

private theorem ne_of_mem_rest
    {key name : String}
    {value : Value}
    {rest : List (String × Value)}
    (absent : key ∉ rest.map Prod.fst)
    (later : (name, value) ∈ rest) :
    key ≠ name := by
  rintro rfl
  exact absent (List.mem_map.2 ⟨_, later, rfl⟩)

private theorem lookup_of_mem
    {name : String}
    {value : Value}
    {fields : List (String × Value)}
    (nodup : (fields.map Prod.fst).Nodup)
    (member : (name, value) ∈ fields) :
    lookup name fields = some value := by
  induction fields with
  | nil => simp at member
  | cons field rest inductionHypothesis =>
      obtain ⟨key, first⟩ := field
      rw [List.map_cons, List.nodup_cons] at nodup
      rw [lookup]
      rcases List.mem_cons.1 member with same | later
      · obtain ⟨rfl, rfl⟩ := Prod.mk.inj same
        exact if_pos rfl
      · rw [if_neg (ne_of_mem_rest nodup.1 later)]
        exact inductionHypothesis nodup.2 later

/-- What is found of a field with a value: what the value trims to, or nothing if it is
null. -/
inductive Remains (value : Value) : Option Value → Prop where
  | kept {value' : Value} (trims : TrimsTo value value') : Remains value (some value')
  | leftOut (isNull : value = .null) : Remains value none

private theorem OmitsNulls.names_sublist
    {fields kept : List (String × Value)}
    (omits : OmitsNulls TrimsTo fields kept) :
    (kept.map Prod.fst).Sublist (fields.map Prod.fst) := by
  induction omits with
  | nil => exact .slnil
  | keep _ _ inductionHypothesis => exact inductionHypothesis.cons_cons _
  | leaveOut _ inductionHypothesis => exact inductionHypothesis.cons _

/-- A field is kept or was null. In the second case nothing is found under its name,
since no other field has that name. -/
theorem OmitsNulls.kept_or_leftOut
    {fields kept : List (String × Value)}
    {name : String}
    {value : Value}
    (omits : OmitsNulls TrimsTo fields kept)
    (nodup : (fields.map Prod.fst).Nodup)
    (member : (name, value) ∈ fields) :
    (∃ value', TrimsTo value value' ∧ (name, value') ∈ kept) ∨
      value = .null ∧ name ∉ kept.map Prod.fst := by
  induction omits with
  | nil => simp at member
  | @keep key first first' rest kept trims others inductionHypothesis =>
      rw [List.map_cons, List.nodup_cons] at nodup
      rcases List.mem_cons.1 member with same | later
      · obtain ⟨rfl, rfl⟩ := Prod.mk.inj same
        exact Or.inl ⟨first', trims, List.mem_cons_self⟩
      · rcases inductionHypothesis nodup.2 later with ⟨value', trims', isKept⟩ | ⟨isNull, absent⟩
        · exact Or.inl ⟨value', trims', List.mem_cons_of_mem _ isKept⟩
        · have different := (ne_of_mem_rest nodup.1 later).symm
          exact Or.inr ⟨isNull, by simp [different, absent]⟩
  | @leaveOut key rest kept others inductionHypothesis =>
      rw [List.map_cons, List.nodup_cons] at nodup
      rcases List.mem_cons.1 member with same | later
      · obtain ⟨rfl, rfl⟩ := Prod.mk.inj same
        exact Or.inr ⟨rfl, fun isKept => nodup.1 (others.names_sublist.subset isKept)⟩
      · exact inductionHypothesis nodup.2 later

structure FieldsRemain (fields fields' : List (String × Value)) : Prop where
  names_subset : fields'.map Prod.fst ⊆ fields.map Prod.fst
  remains : ∀ field ∈ fields, Remains field.2 (lookup field.1 fields')

theorem OmitsNulls.fieldsRemain
    {fields kept fields' : List (String × Value)}
    (omits : OmitsNulls TrimsTo fields kept)
    (reordered : kept.Perm fields')
    (nodup : (fields.map Prod.fst).Nodup) :
    FieldsRemain fields fields' := by
  have namesReordered : (kept.map Prod.fst).Perm (fields'.map Prod.fst) := reordered.map _
  refine ⟨fun name isLeft => ?_, fun field member => ?_⟩
  · exact omits.names_sublist.subset (namesReordered.mem_iff.2 isLeft)
  · rcases omits.kept_or_leftOut nodup member with ⟨value', trims, isKept⟩ | ⟨isNull, absent⟩
    · have keptNodup : (fields'.map Prod.fst).Nodup :=
        namesReordered.nodup_iff.1 (omits.names_sublist.nodup nodup)
      rw [lookup_of_mem keptNodup (reordered.mem_iff.1 isKept)]
      exact .kept trims
    · rw [lookup_eq_none_iff.2 (mt namesReordered.mem_iff.2 absent)]
      exact .leftOut isNull

/-- A record has no other fields when some have been left out. -/
theorem FieldsRemain.exactFields?
    {fields fields' : List (String × Value)}
    (fieldsRemain : FieldsRemain fields fields') :
    (Value.record fields').exactFields? (fields.map Prod.fst) =
      (Value.record fields').fields? (fields.map Prod.fst) := by
  refine if_pos (List.all_eq_true.2 fun field member => ?_)
  exact List.contains_iff_mem.2 (fieldsRemain.names_subset (List.mem_map_of_mem member))

/-- A value that is not null, and from which the same is read with or without the null
fields in it. -/
structure ReadsBack {α : Type} (read : Value → Option α) (value : Value) (result : α) : Prop where
  present : value ≠ .null
  reads : ∀ value', TrimsTo value value' → read value' = some result

variable {α : Type} {read : Value → Option α} {write : α → Value}

theorem readNullable_of_ne_null {value : Value} (present : value ≠ .null) :
    readNullable read value = (read value).map some := by
  cases value with
  | null => exact absurd rfl present
  | _ => rfl

theorem Remains.required
    {value : Value}
    {field : Option Value}
    {result : α}
    (remains : Remains value field)
    (readsBack : ReadsBack read value result) :
    required read field = some result := by
  cases remains with
  | kept trims => exact readsBack.reads _ trims
  | leftOut isNull => exact absurd isNull readsBack.present

theorem Remains.nullable
    {field : Option Value}
    {result : Option α}
    (remains : Remains (writeNullable write result) field)
    (readsBack : ∀ item ∈ result, ReadsBack read (write item) item) :
    nullable read field = some result := by
  cases result with
  | none =>
      cases remains with
      | kept trims =>
          cases trims
          rfl
      | leftOut => rfl
  | some item =>
      have itemReadsBack := readsBack item rfl
      cases remains with
      | @kept value' trims =>
          rw [Exchange.nullable, Option.getD_some,
            readNullable_of_ne_null (trims.ne_null itemReadsBack.present),
            itemReadsBack.reads value' trims, Option.map_some]
      | leftOut isNull => exact absurd isNull itemReadsBack.present

theorem ReadsBack.of_fields
    {fields : List (String × Value)}
    {result : α}
    (nodup : (fields.map Prod.fst).Nodup)
    (reads : ∀ fields', FieldsRemain fields fields' → read (.record fields') = some result) :
    ReadsBack read (.record fields) result := by
  refine ⟨nofun, fun value' trims => ?_⟩
  obtain ⟨kept, fields', rfl, omits, reordered⟩ := trims.exists_fields
  exact reads fields' (omits.fieldsRemain reordered nodup)

theorem mapM_eq_some_iff {items : List Value} {results : List α} :
    items.mapM read = some results ↔
      List.Forall₂ (fun item result => read item = some result) items results := by
  induction items generalizing results with
  | nil =>
      rw [List.mapM_nil, List.forall₂_nil_left_iff]
      exact Option.some_inj.trans eq_comm
  | cons item rest inductionHypothesis =>
      rw [List.mapM_cons, List.forall₂_cons_left_iff]
      simp only [Option.bind_eq_bind, Option.bind_eq_some_iff, inductionHypothesis, Option.pure_def,
        Option.some.injEq]
      constructor
      · rintro ⟨result, reads, others, othersRead, rfl⟩
        exact ⟨result, others, reads, othersRead, rfl⟩
      · rintro ⟨result, others, reads, othersRead, rfl⟩
        exact ⟨result, reads, others, othersRead, rfl⟩

private theorem mapM_of_trimmed
    {results : List α}
    {items : List Value}
    (trimmed : List.Forall₂ (fun result item => TrimsTo (write result) item) results items)
    (readsBack : ∀ result ∈ results, ReadsBack read (write result) result) :
    items.mapM read = some results := by
  rw [mapM_eq_some_iff]
  induction trimmed with
  | nil => exact .nil
  | cons trims _ inductionHypothesis =>
      have first := (readsBack _ List.mem_cons_self).reads _ trims
      have others := inductionHypothesis fun result member =>
        readsBack result (List.mem_cons_of_mem _ member)
      exact .cons first others

theorem ReadsBack.list
    {results : List α}
    (readsBack : ∀ result ∈ results, ReadsBack read (write result) result) :
    ReadsBack (readList read) (.list (results.map write)) results := by
  refine ⟨nofun, fun value' trims => ?_⟩
  obtain ⟨items, rfl, trimmed⟩ := trims.exists_items
  exact mapM_of_trimmed (List.forall₂_map_left_iff.1 trimmed) readsBack

end Exchange

end MacroRegions
