import PanelSchema.Json.Decode
import PanelSchema.Proofs.Json.Text

/-!
Values of known types are taken from what they were written as. A record is filled field by
field in the order of its decoder, and a field that was left out keeps what it starts with.
-/

namespace PanelSchema

open Json (itemsAsRead fieldsAsRead)

/-! ### Written values -/

namespace Document

mutual

theorem fault?_asRead (j : Json) : j.asRead.fault? = none := by
  cases j with
  | arr items =>
    rw [Json.asRead, fault?, itemsFault?_asRead]
    rfl
  | obj fields =>
    rw [Json.asRead, fault?, fieldsFault?_asRead]
    rfl
  | _ => rfl

theorem itemsFault?_asRead (items : List Json) : itemsFault? (itemsAsRead items) = none := by
  cases items with
  | nil => rfl
  | cons j items =>
    rw [itemsAsRead, itemsFault?, fault?_asRead, itemsFault?_asRead]
    rfl

theorem fieldsFault?_asRead (fields : List (String × Json)) :
    fieldsFault? (fieldsAsRead fields) = none := by
  cases fields with
  | nil => rfl
  | cons field fields =>
    rw [fieldsAsRead, fieldsFault?, fault?_asRead, fieldsFault?_asRead]
    rfl

end

end Document

namespace Decoder

variable {α β σ : Type}

theorem sound_asRead (j : Json) : sound j.asRead = .ok j.asRead := by
  rw [sound, Document.fault?_asRead]

/-- A value can be read where `depth` levels are left, and `a` is taken from it. -/
structure Restores (value : Decoder α) (depth : Nat) (j : Json) (a : α) : Prop where
  readable : j.Readable depth
  taken : value j.asRead = .ok a

theorem Restores.ofText_pretty {value : Decoder α} {j : Json} {a : α}
    (h : Restores value Document.greatestDepth j a) : value.ofText j.pretty = .ok a := by
  unfold ofText
  rw [Document.read_pretty h.readable]
  dsimp only
  rw [h.taken]
  rfl

variable {depth : Nat}

theorem restores_string (s : String) : Restores string depth (.str s) s :=
  ⟨trivial, rfl⟩

theorem restores_bool (b : Bool) : Restores bool depth (.bool b) b :=
  ⟨trivial, rfl⟩

theorem restores_float {x : Float} (hx : Json.IsWritten x) :
    Restores float depth (.float x) (Json.rereadFloat x) :=
  ⟨hx, rfl⟩

theorem restores_items {value : Decoder β} {write : α → Json} {g : α → β} {xs : List α}
    (h : ∀ a ∈ xs, Restores value depth (write a) (g a)) :
    Json.ReadableItems depth (xs.map write) ∧
      (itemsAsRead (xs.map write)).mapM value = .ok (xs.map g) := by
  induction xs with
  | nil => exact ⟨trivial, rfl⟩
  | cons a xs ih =>
    have ha := h a List.mem_cons_self
    obtain ⟨hreadable, htaken⟩ := ih fun a ha => h a (List.mem_cons_of_mem _ ha)
    refine ⟨⟨ha.readable, hreadable⟩, ?_⟩
    rw [List.map_cons, itemsAsRead, List.mapM_cons, ha.taken, htaken]
    rfl

theorem restores_list {value : Decoder β} {write : α → Json} {g : α → β} {xs : List α}
    (hdepth : 1 < depth) (h : ∀ a ∈ xs, Restores value (depth - 1) (write a) (g a)) :
    Restores (list value) depth (.arr (xs.map write)) (xs.map g) := by
  obtain ⟨hreadable, htaken⟩ := restores_items h
  refine ⟨⟨hdepth, hreadable⟩, ?_⟩
  rw [Json.asRead, list, htaken]
  rfl

theorem restores_same {value : Decoder α} {write : α → Json} {xs : List α} (hdepth : 1 < depth)
    (h : ∀ a ∈ xs, Restores value (depth - 1) (write a) a) :
    Restores (list value) depth (.arr (xs.map write)) xs := by
  have hlist : Restores (list value) depth (.arr (xs.map write)) (xs.map id) :=
    restores_list hdepth h
  rwa [List.map_id] at hlist

/-! ### Records -/

/-- The fields of a record, in order, are filled from the entries of an object; those that are
not required may be left out. -/
inductive Fills (depth : Nat) :
    List (FieldDecoder σ) → List (String × Json) → σ → σ → Prop where
  | nil {s : σ} : Fills depth [] [] s s
  | present {f : FieldDecoder σ} {fields : List (FieldDecoder σ)} {j : Json}
      {entries : List (String × Json)} {s s' s'' : σ} (hj : j.Readable depth)
      (h : f.fill j.asRead s = .ok s') (rest : Fills depth fields entries s' s'') :
      Fills depth (f :: fields) ((f.name, j) :: entries) s s''
  | absent {f : FieldDecoder σ} {fields : List (FieldDecoder σ)}
      {entries : List (String × Json)} {s s' : σ} (h : f.required = false)
      (rest : Fills depth fields entries s s') : Fills depth (f :: fields) entries s s'

theorem find?_field {done fields : List (FieldDecoder σ)} {f : FieldDecoder σ}
    (hnew : f.name ∉ done.map (·.name)) :
    (done ++ f :: fields).find? (·.name == f.name) = some f := by
  have hnone : done.find? (·.name == f.name) = none := by
    rw [List.find?_eq_none]
    intro g hg hname
    exact hnew (List.mem_map.2 ⟨g, hg, LawfulBEq.eq_of_beq hname⟩)
  rw [List.find?_append, hnone, List.find?_cons, BEq.rfl]
  rfl

theorem fillFields_of_fills {all done fields : List (FieldDecoder σ)}
    {entries : List (String × Json)} {s s' : σ} (h : Fills depth fields entries s s')
    (hall : done ++ fields = all) (hnames : (all.map (·.name)).Nodup) {seen : List String}
    (hseen : ∀ key ∈ seen, key ∈ done.map (·.name)) :
    ∃ seen', fillFields all seen s (fieldsAsRead entries) = .ok (seen', s') ∧
      (∀ key ∈ seen, key ∈ seen') ∧
      ∀ f ∈ fields, f.required = true → f.name ∈ seen' := by
  induction h generalizing done seen with
  | nil => exact ⟨seen, rfl, fun _ hkey => hkey, nofun⟩
  | @present f fields j entries s s' s'' _ hfill rest ih =>
    have hnew : f.name ∉ done.map (·.name) := by
      rw [← hall, List.map_append, List.map_cons, List.nodup_append] at hnames
      exact fun hmem => hnames.2.2 _ hmem _ List.mem_cons_self rfl
    have hfound : all.find? (·.name == f.name) = some f := hall ▸ find?_field hnew
    have hunseen : seen.contains f.name = false := by
      simpa using fun hmem => hnew (hseen _ hmem)
    have hseen' : ∀ key ∈ f.name :: seen, key ∈ (done ++ [f]).map (·.name) := by
      intro key hkey
      rw [List.map_append, List.mem_append]
      rcases List.mem_cons.1 hkey with rfl | hkey
      · exact .inr List.mem_cons_self
      · exact .inl (hseen key hkey)
    obtain ⟨seen', hread, hkept, hrequired⟩ := ih (by rw [← hall, List.append_assoc]; rfl) hseen'
    refine ⟨seen', ?_, fun key hkey => hkept key (List.mem_cons_of_mem _ hkey), ?_⟩
    · rw [fieldsAsRead, fillFields, hfound]
      dsimp only
      rw [hunseen, hfill]
      exact hread
    · intro g hg hrequires
      rcases List.mem_cons.1 hg with rfl | hg
      · exact hkept _ List.mem_cons_self
      · exact hrequired g hg hrequires
  | @absent f fields entries s s' hoptional rest ih =>
    have hseen' : ∀ key ∈ seen, key ∈ (done ++ [f]).map (·.name) := by
      intro key hkey
      rw [List.map_append, List.mem_append]
      exact .inl (hseen key hkey)
    obtain ⟨seen', hread, hkept, hrequired⟩ := ih (by rw [← hall, List.append_assoc]; rfl) hseen'
    refine ⟨seen', hread, hkept, fun g hg hrequires => ?_⟩
    rcases List.mem_cons.1 hg with rfl | hg
    · rw [hoptional] at hrequires
      cases hrequires
    · exact hrequired g hg hrequires

theorem Fills.readable {fields : List (FieldDecoder σ)} {entries : List (String × Json)}
    {s s' : σ} (h : Fills depth fields entries s s') : Json.ReadableFields depth entries := by
  induction h with
  | nil => trivial
  | present hj _ _ ih => exact ⟨hj, ih⟩
  | absent _ _ ih => exact ih

theorem Restores.record {title : String} {fields : List (FieldDecoder σ)}
    {entries : List (String × Json)} {start s : σ} (h : Fills (depth - 1) fields entries start s)
    (hdepth : 1 < depth) (hnames : (fields.map (·.name)).Nodup) :
    Restores (record title fields start) depth (.obj entries) s := by
  refine ⟨⟨hdepth, h.readable⟩, ?_⟩
  obtain ⟨seen, hread, -, hrequired⟩ :=
    fillFields_of_fills h (List.nil_append fields) hnames (fun _ hkey => hkey : ∀ key ∈ [], _)
  have hnone : (fields.find? fun f => f.required && !seen.contains f.name) = none := by
    rw [List.find?_eq_none]
    intro f hf hmissing
    rw [Bool.and_eq_true] at hmissing
    have hmem := List.contains_iff_mem.2 (hrequired f hf hmissing.1)
    rw [hmem] at hmissing
    cases hmissing.2
  rw [Json.asRead, Decoder.record, hread]
  simp only [bind, Except.bind, hnone]

namespace Fills

variable {fields : List (FieldDecoder σ)} {entries : List (String × Json)} {s s' : σ}
  {key : String} {value : Decoder β} {j : Json}

theorem field {set : β → σ → σ} {b : β} (h : Restores value depth j b)
    (rest : Fills depth fields entries (set b s) s') :
    Fills depth (required key value set :: fields) ((key, j) :: entries) s s' := by
  refine Fills.present (f := required key value set) h.readable ?_ rest
  change (value j.asRead).map (set · s) = _
  rw [h.taken]
  rfl

/-- A field that is always written, though it need not be. -/
theorem given {set : β → σ → σ} {b : β} (h : Restores value depth j b)
    (rest : Fills depth fields entries (set b s) s') :
    Fills depth (optional key value set :: fields) ((key, j) :: entries) s s' := by
  refine Fills.present (f := optional key value set) h.readable ?_ rest
  change (value j.asRead).map (set · s) = _
  rw [h.taken]
  rfl

theorem opt {write : α → Json} {g : α → β} {o : Option α} {b : Option β}
    {set : Option β → σ → σ} (hnull : ∀ a, (write a).asRead ≠ .null)
    (h : ∀ a ∈ o, Restores value depth (write a) (g a)) (hb : o.map g = b)
    (hnone : set none s = s) (rest : Fills depth fields entries (set b s) s') :
    Fills depth (optional key (.option value) set :: fields)
      (Json.optField key write o ++ entries) s s' := by
  subst hb
  cases o with
  | none => exact .absent rfl (hnone ▸ rest)
  | some a =>
    have hread : option value (write a).asRead = (value (write a).asRead).map some := by
      rw [option]
      exact hnull a
    rw [(h a rfl).taken] at hread
    exact given ⟨(h a rfl).readable, hread⟩ rest

theorem text? {o : Option String} {set : Option String → σ → σ} (hnone : set none s = s)
    (rest : Fills depth fields entries (set o s) s') :
    Fills depth (optional key (.option .string) set :: fields)
      (Json.optField key .str o ++ entries) s s' :=
  opt (fun _ => nofun) (fun a _ => restores_string a) Option.map_id_apply hnone rest

theorem list {write : α → Json} {xs : List α} {ys : List β} {set : List β → σ → σ}
    (h : Restores (Decoder.list value) depth (.arr (xs.map write)) ys) (hnil : set [] s = s)
    (rest : Fills depth fields entries (set ys s) s') :
    Fills depth (optional key (.list value) set :: fields)
      (Json.listField key write xs ++ entries) s s' := by
  cases xs with
  | nil =>
    cases h.taken
    exact .absent rfl (hnil ▸ rest)
  | cons a xs => exact given h rest

theorem texts {xs : List String} {set : List String → σ → σ} (hdepth : 1 < depth)
    (hnil : set [] s = s) (rest : Fills depth fields entries (set xs s) s') :
    Fills depth (optional key (.list .string) set :: fields)
      (Json.listField key .str xs ++ entries) s s' :=
  list (restores_same hdepth fun a _ => restores_string a) hnil rest

theorem flag {b : Bool} {set : Bool → σ → σ} (hfalse : set false s = s)
    (rest : Fills depth fields entries (set b s) s') :
    Fills depth (optional key .bool set :: fields) (Json.flagField key b ++ entries) s s' := by
  cases b with
  | false => exact .absent rfl (hfalse ▸ rest)
  | true => exact given (restores_bool true) rest

end Fills

/-! ### Tables -/

theorem putEntry_of_new {key : String} {b : β} {entries : List (String × β)}
    (h : key ∉ entries.map (·.1)) : Dict.putEntry key b entries = entries ++ [(key, b)] := by
  induction entries with
  | nil => rfl
  | cons e entries ih =>
    rw [List.map_cons, List.mem_cons, not_or] at h
    rw [Dict.putEntry, if_neg (by simpa using h.1), ih h.2]
    rfl

theorem restores_entries {value : Decoder β} {write : α → Json} {g : α → β}
    {entries : List (String × α)} (table : Dict β)
    (h : ∀ e ∈ entries, Restores value depth (write e.2) (g e.2))
    (hkeys : (table.entries.map (·.1) ++ entries.map (·.1)).Nodup) :
    Json.ReadableFields depth (entries.map fun e => (e.1, write e.2)) ∧
      fillEntries value table (fieldsAsRead (entries.map fun e => (e.1, write e.2))) =
        .ok ⟨table.entries ++ entries.map fun e => (e.1, g e.2)⟩ := by
  induction entries generalizing table with
  | nil =>
    rw [List.map_nil, List.map_nil, List.append_nil]
    exact ⟨trivial, rfl⟩
  | cons e entries ih =>
    have he := h e List.mem_cons_self
    have hnew : e.1 ∉ table.entries.map (·.1) := by
      rw [List.nodup_append] at hkeys
      exact fun hmem => hkeys.2.2 _ hmem _ List.mem_cons_self rfl
    have hinsert : (table.insert e.1 (g e.2)).entries = table.entries ++ [(e.1, g e.2)] :=
      putEntry_of_new hnew
    have hkeys' : ((table.insert e.1 (g e.2)).entries.map (·.1) ++ entries.map (·.1)).Nodup := by
      rw [hinsert, List.map_append, List.append_assoc]
      exact hkeys
    obtain ⟨hreadable, htaken⟩ := ih _ (fun e he => h e (List.mem_cons_of_mem _ he)) hkeys'
    refine ⟨⟨he.readable, hreadable⟩, ?_⟩
    rw [List.map_cons, fieldsAsRead, fillEntries, he.taken]
    refine htaken.trans ?_
    rw [hinsert, List.append_assoc]
    rfl

theorem restores_dict {value : Decoder β} {write : α → Json} {g : α → β}
    {entries : List (String × α)} (hdepth : 1 < depth)
    (h : ∀ e ∈ entries, Restores value (depth - 1) (write e.2) (g e.2))
    (hkeys : (entries.map (·.1)).Nodup) :
    Restores (dict value) depth (.obj (entries.map fun e => (e.1, write e.2)))
      ⟨entries.map fun e => (e.1, g e.2)⟩ := by
  obtain ⟨hreadable, htaken⟩ := restores_entries .empty h hkeys
  refine ⟨⟨hdepth, hreadable⟩, ?_⟩
  rw [Json.asRead, dict, htaken]
  rfl

end Decoder

end PanelSchema
