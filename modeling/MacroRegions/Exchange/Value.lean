import MacroRegions.Text.Basic

/-!
Values of the exchange format.

Documents are exchanged as values: records with named fields, lists, words
and texts. A field that may be absent can be left out of its record. A record
may also be given as the list of all its fields, in order.

A value that is exchanged as a text must not nest too deep.
-/

namespace MacroRegions

/-- A value of the exchange format. -/
inductive Exchange.Value where
  | null
  | flag (value : Bool)
  | number (value : Nat)
  | otherNumber
  | text (value : Text)
  | list (items : List Value)
  | record (fields : List (String × Value))
deriving Repr, Inhabited

namespace Exchange

def lookup (name : String) : List (String × Value) → Option Value
  | [] => none
  | (key, value) :: rest => if key = name then some value else lookup name rest

namespace Value

/-- The fields of a record, in the order of `names`; a field that is left out
is `none`. -/
def fields? (names : List String) : Value → Option (List (Option Value))
  | record fields => some (names.map (lookup · fields))
  | list items => if items.length = names.length then some (items.map some) else none
  | _ => none

/-- The fields of a record that may have no others. -/
def exactFields? (names : List String) (value : Value) : Option (List (Option Value)) :=
  match value with
  | record fields =>
    if fields.all fun field => names.contains field.1 then value.fields? names else none
  | _ => value.fields? names

def items? : Value → Option (List Value)
  | list items => some items
  | _ => none

mutual

/-- How many lists and records are around the innermost part of a value. -/
def depth : Value → Nat
  | list items => itemsDepth items + 1
  | record fields => fieldsDepth fields + 1
  | null => 0
  | flag _ => 0
  | number _ => 0
  | otherNumber => 0
  | text _ => 0

def itemsDepth : List Value → Nat
  | [] => 0
  | item :: rest => max (depth item) (itemsDepth rest)

def fieldsDepth : List (String × Value) → Nat
  | [] => 0
  | (_, value) :: rest => max (depth value) (fieldsDepth rest)

end

/-- Whether a value can be read from a text, where no more than 127 lists and
records may be around one another. -/
def isShallow (value : Value) : Bool :=
  value.depth ≤ 127

end Value

private theorem sizeOf_lookup
    {name : String}
    {fields : List (String × Value)}
    {value : Value}
    (found : lookup name fields = some value) :
    sizeOf value < sizeOf fields := by
  fun_induction lookup name fields with
  | case1 => simp at found
  | case2 value' rest =>
      obtain rfl := Option.some.inj found
      simp only [List.cons.sizeOf_spec, Prod.mk.sizeOf_spec]
      omega
  | case3 key value' rest different inductionHypothesis =>
      have smaller := inductionHypothesis found
      simp only [List.cons.sizeOf_spec]
      omega

theorem sizeOf_of_mem_fields?
    {names : List String}
    {value field : Value}
    {fields : List (Option Value)}
    (taken : value.fields? names = some fields)
    (member : some field ∈ fields) :
    sizeOf field < sizeOf value := by
  cases value with
  | record entries =>
      obtain rfl := Option.some.inj taken
      obtain ⟨name, _, found⟩ := List.mem_map.1 member
      have smaller := sizeOf_lookup found
      simp only [Value.record.sizeOf_spec]
      omega
  | list items =>
      simp only [Value.fields?] at taken
      split at taken
      · obtain rfl := Option.some.inj taken
        obtain ⟨item, itemMember, equality⟩ := List.mem_map.1 member
        obtain rfl := Option.some.inj equality
        have smaller := List.sizeOf_lt_of_mem itemMember
        simp only [Value.list.sizeOf_spec]
        omega
      · simp at taken
  | _ => simp [Value.fields?] at taken

theorem sizeOf_items?
    {value : Value}
    {items : List Value}
    (taken : value.items? = some items) :
    sizeOf items < sizeOf value := by
  cases value with
  | list entries =>
      obtain rfl := Option.some.inj taken
      simp only [Value.list.sizeOf_spec]
      omega
  | _ => simp [Value.items?] at taken

end Exchange

end MacroRegions
