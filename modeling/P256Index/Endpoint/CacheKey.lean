import P256Index.Registrar.Lookup

/-!
# Cache slots

A rendered response is cached under a text made of the fields of its lookup key, joined by colons. A
site's name stands in the middle of that text as the client wrote it, colons included. The text is
unambiguous all the same: the tag in front tells the kinds of key apart, and the three fields at the
end (two numbers and a flag) have no colon, so they are found from the right and what is left
between is the name.
-/

namespace P256Index

/-! ## Fields behind a separator -/

/-- The last field of a text is what follows the last separator. -/
theorem append_separator_inj {α : Type*} {sep : α} {a a' b b' : List α} (hb : sep ∉ b)
    (hb' : sep ∉ b') (h : a ++ sep :: b = a' ++ sep :: b') : a = a' ∧ b = b' := by
  obtain ⟨m, hm⟩ | ⟨m, hm⟩ := List.append_eq_append_iff.mp h
  · obtain ⟨ha, hrest⟩ := hm
    cases m with
    | nil => simp_all
    | cons c m =>
        -- then the first text's last field would hold the second one's separator
        obtain ⟨-, rfl⟩ := List.cons.inj hrest
        exact absurd (List.mem_append_right m (List.mem_cons_self ..)) hb
  · obtain ⟨ha, hrest⟩ := hm
    cases m with
    | nil => simp_all
    | cons c m =>
        obtain ⟨-, rfl⟩ := List.cons.inj hrest
        exact absurd (List.mem_append_right m (List.mem_cons_self ..)) hb'

theorem toList_toString_uInt64 (n : UInt64) : (toString n).toList = Nat.toDigits 10 n.toNat :=
  Nat.toList_repr

theorem colon_notMem_digits (n : UInt64) : ':' ∉ (toString n).toList := by
  rw [toList_toString_uInt64]
  intro h
  exact absurd (Nat.isDigit_of_mem_toDigits (by decide) (by decide) h) (by decide)

theorem digits_inj {m n : UInt64} (h : (toString m).toList = (toString n).toList) : m = n := by
  rw [toList_toString_uInt64, toList_toString_uInt64] at h
  apply UInt64.toNat_inj.mp
  rw [← @Nat.ofDigitChars_ten_toDigits m.toNat, h, Nat.ofDigitChars_ten_toDigits]

theorem colon_notMem_flag (b : Bool) : ':' ∉ (toString b).toList := by
  cases b <;> decide

theorem flag_inj {b c : Bool} (h : (toString b).toList = (toString c).toList) : b = c := by
  revert h
  cases b <;> cases c <;> decide

namespace Registrar.Lookup

/-- `cache_key_string`. -/
def cacheKeyString : LookupCacheKey → String
  | .entriesByKey keyHash ⟨page, pageSize, descending⟩ =>
      s!"query:key:{keyHash}:{page}:{pageSize}:{descending}"
  | .entry entryId => s!"query:entry:{entryId}"
  | .unit unitId ⟨page, pageSize, descending⟩ =>
      s!"query:unit:{unitId}:{page}:{pageSize}:{descending}"
  | .group groupKey ⟨page, pageSize, descending⟩ =>
      s!"query:group:{groupKey}:{page}:{pageSize}:{descending}"
  | .statsTotal => "stats:total"
  | .sites ⟨page, pageSize, descending⟩ => s!"stats:rpIds:{page}:{pageSize}:{descending}"
  | .keys rpId ⟨page, pageSize, descending⟩ => s!"stats:keys:{rpId}:{page}:{pageSize}:{descending}"

/-- The three fields at the end of a paged key. -/
def Pagination.fields : Pagination → String
  | ⟨page, pageSize, descending⟩ => s!"{page}:{pageSize}:{descending}"

theorem Pagination.toList_fields (p : Pagination) :
    p.fields.toList = (toString p.page).toList ++ ':' :: (toString p.pageSize).toList ++
      ':' :: (toString p.descending).toList := by
  have hcolon : (toString ":").toList = [':'] := rfl
  simp only [fields, String.toList_append, hcolon, List.cons_append, List.nil_append,
    List.append_assoc]

theorem Pagination.fields_inj {p q : Pagination} {a b : String}
    (h : a ++ (":" ++ p.fields) = b ++ (":" ++ q.fields)) : a = b ∧ p = q := by
  have hcolon : ":".toList = [':'] := rfl
  have htext := congrArg String.toList h
  simp only [String.toList_append, toList_fields, hcolon, List.cons_append,
    List.nil_append] at htext
  simp only [← List.cons_append, ← List.append_assoc] at htext
  -- from the right: the flag, then the size, then the page
  obtain ⟨hleft, hflag⟩ := append_separator_inj (colon_notMem_flag _) (colon_notMem_flag _) htext
  obtain ⟨hleft', hsize⟩ :=
    append_separator_inj (colon_notMem_digits _) (colon_notMem_digits _) hleft
  obtain ⟨hname, hpage⟩ :=
    append_separator_inj (colon_notMem_digits _) (colon_notMem_digits _) hleft'
  obtain ⟨page, pageSize, descending⟩ := p
  obtain ⟨page', pageSize', descending'⟩ := q
  obtain rfl : page = page' := digits_inj hpage
  obtain rfl : pageSize = pageSize' := digits_inj hsize
  obtain rfl : descending = descending' := flag_inj hflag
  exact ⟨String.toList_inj.mp hname, rfl⟩

namespace LookupCacheKey

/-- What stands in front tells the kind of a key. -/
def tag : LookupCacheKey → String
  | .entriesByKey .. => "query:key:"
  | .entry _ => "query:entry:"
  | .unit .. => "query:unit:"
  | .group .. => "query:group:"
  | .statsTotal => "stats:total"
  | .sites _ => "stats:rpIds:"
  | .keys .. => "stats:keys:"

/-- What follows the tag. -/
def rest : LookupCacheKey → String
  | .entriesByKey keyHash paging => keyHash ++ (":" ++ paging.fields)
  | .entry entryId => toString entryId
  | .unit unitId paging => toString unitId ++ (":" ++ paging.fields)
  | .group groupKey paging => groupKey ++ (":" ++ paging.fields)
  | .statsTotal => ""
  | .sites paging => paging.fields
  | .keys rpId paging => rpId ++ (":" ++ paging.fields)

theorem cacheKeyString_eq (key : LookupCacheKey) : cacheKeyString key = key.tag ++ key.rest := by
  unfold cacheKeyString
  cases key with
  | statsTotal => rw [rest, String.append_empty, tag]
  | entry entryId => rfl
  | _ =>
      simp only [tag, rest, Pagination.fields, String.append_assoc]
      rfl

def tags : List String :=
  ["query:key:", "query:entry:", "query:unit:", "query:group:", "stats:total", "stats:rpIds:",
    "stats:keys:"]

theorem tag_mem (key : LookupCacheKey) : key.tag ∈ tags := by
  cases key <;> simp only [tag, tags, List.mem_cons, true_or, or_true]

/-- No tag is the beginning of another. -/
theorem tags_apart : ∀ a ∈ tags, ∀ b ∈ tags, a.toList <+: b.toList → a = b := by decide +kernel

theorem tag_eq {j k : LookupCacheKey} (h : j.tag ++ j.rest = k.tag ++ k.rest) : j.tag = k.tag := by
  have htext := congrArg String.toList h
  rw [String.toList_append, String.toList_append] at htext
  have hj : j.tag.toList <+: k.tag.toList ++ k.rest.toList := htext ▸ List.prefix_append _ _
  obtain hle | hle := List.prefix_or_prefix_of_prefix hj (List.prefix_append _ _)
  · exact tags_apart _ j.tag_mem _ k.tag_mem hle
  · exact (tags_apart _ k.tag_mem _ j.tag_mem hle).symm

/-- Keys of one kind are told apart by what follows the tag. -/
theorem eq_of_rest {j k : LookupCacheKey} (htag : j.tag = k.tag) (hrest : j.rest = k.rest) :
    j = k := by
  cases j <;> cases k
  case entriesByKey.entriesByKey a p b q =>
    obtain ⟨rfl, rfl⟩ := Pagination.fields_inj hrest
    rfl
  case entry.entry a b => rw [digits_inj (congrArg String.toList hrest)]
  case unit.unit a p b q =>
    obtain ⟨hunit, rfl⟩ := Pagination.fields_inj hrest
    rw [digits_inj (congrArg String.toList hunit)]
  case group.group a p b q =>
    obtain ⟨rfl, rfl⟩ := Pagination.fields_inj hrest
    rfl
  case statsTotal.statsTotal => rfl
  case sites.sites p q =>
    obtain ⟨-, rfl⟩ := Pagination.fields_inj (congrArg (fun s => "" ++ (":" ++ s)) hrest)
    rfl
  case keys.keys a p b q =>
    obtain ⟨rfl, rfl⟩ := Pagination.fields_inj hrest
    rfl
  all_goals exact absurd htag (of_decide_eq_false rfl)

end LookupCacheKey

theorem cacheKeyString_injective : Function.Injective cacheKeyString := by
  intro j k h
  rw [LookupCacheKey.cacheKeyString_eq, LookupCacheKey.cacheKeyString_eq] at h
  have htag := LookupCacheKey.tag_eq h
  rw [htag] at h
  exact LookupCacheKey.eq_of_rest htag (String.append_right_inj _ |>.mp h)

end Registrar.Lookup

/-! ## The two shells -/

open Registrar.Lookup (LookupCacheKey)

/-- `cache_key_string` of the server. -/
def Server.cacheKeyString (key : LookupCacheKey) : String := Registrar.Lookup.cacheKeyString key

/-- `cache_key_string` of the Cloudflare worker. -/
def Cloudflare.cacheKeyString (key : LookupCacheKey) : String := Registrar.Lookup.cacheKeyString key

/-- Different lookups have different slots, whatever name a site has. -/
theorem cacheKey_slots_apart (j k : LookupCacheKey) :
    (Server.cacheKeyString j = Server.cacheKeyString k ↔ j = k) ∧
      (Cloudflare.cacheKeyString j = Cloudflare.cacheKeyString k ↔ j = k) :=
  ⟨Registrar.Lookup.cacheKeyString_injective.eq_iff,
    Registrar.Lookup.cacheKeyString_injective.eq_iff⟩

/-- A name that looks like the fields behind it. -/
example :
    Server.cacheKeyString (.keys "a:1:20:true" ⟨2, 20, false⟩) =
      "stats:keys:a:1:20:true:2:20:false" := by
  decide +kernel

end P256Index
