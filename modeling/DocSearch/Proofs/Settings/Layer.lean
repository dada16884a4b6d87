import DocSearch.Settings.Layer
import DocSearch.Proofs.Settings.Expand
import DocSearch.Proofs.Yaml.Keys

/-!
# Layers of settings, field by field

Settings come from three layers: the defaults, a document over them, and overrides over both.
Merging works on whole mappings, and a section is filled from a merged mapping by name. Here each
field is followed through the layers on its own.

**Merging.** What is found under a key in merged entries is the upper value over the lower one
(`lookup_layerEntries`), and entries under keys that are there leave the keys and their order
(`keys_layerEntries`).

**Documents.** Whether a document can be used at all is a matter of its sections alone: each that is
there has to be a mapping from names of its fields (`SectionsFit`). Then a field has the expanded
value of the document, or else its default (`ofDocument_of_fits`); otherwise there are no settings
(`ofDocument_of_unfit`).

**Overrides.** A value that is given for a field replaces the one that the settings have there,
unless it is a null (`override_eq`). One section is overridden after the other (`overrideWith_eq`,
`foldlM_overrideWith`).
-/

namespace DocSearch.Settings

open Value Yaml

/-! ## Merging -/

section Merging

variable {es below : List (Value × Value)}

theorem under?_text (t : String) (es : List (Value × Value)) :
    under? (.text t) es = lookup t es := by
  induction es with
  | nil => rfl
  | cons e es ih => rw [under?, ih, lookup_cons]

theorem layer_of_not_map {lower : Value} (h : ∀ es, lower ≠ .map es) (v : Value) :
    layer (some lower) v = v := by
  cases v with
  | map upper =>
    cases lower with
    | map es => exact absurd rfl (h es)
    | _ => rfl
  | _ => rfl

theorem layer_map (below upper : List (Value × Value)) :
    layer (some (.map below)) (.map upper) = .map (layerEntries below upper) := by
  rw [layer]

/-- **What is found in merged entries**: the upper value over the lower one. -/
theorem lookup_layerEntries (h : Apart es) (t : String) (below : List (Value × Value)) :
    lookup t (layerEntries below es) =
      match lookup t es with
      | some v => some (layer (lookup t below) v)
      | none => lookup t below := by
  induction es generalizing below with
  | nil => rw [layerEntries]; rfl
  | cons e es ih =>
    obtain ⟨k, v⟩ := e
    rw [layerEntries, ih (List.pairwise_cons.1 h).2, lookup_putEntry]
    by_cases hk : k = .text t
    · subst hk
      rw [h.lookup_eq_none rfl, lookup_cons_self, under?_text, if_pos (sameKey_text_iff.2 rfl)]
    · rw [if_neg (mt sameKey_text_iff.1 hk), lookup_cons_of_ne hk]

theorem keys_subset_layerEntries (below : List (Value × Value)) :
    below.map (·.1) ⊆ (layerEntries below es).map (·.1) := by
  induction es generalizing below with
  | nil => rw [layerEntries]; exact fun _ h => h
  | cons e es ih =>
    rw [layerEntries]
    exact fun _ h => ih _ (keys_subset_putEntry h)

/-- No key of the upper entries is lost. -/
theorem exists_key_layerEntries {e : Value × Value} (h : e ∈ es) (below : List (Value × Value)) :
    ∃ k ∈ (layerEntries below es).map (·.1), k = e.1 ∨ sameKey k e.1 = true := by
  induction es generalizing below with
  | nil => cases h
  | cons d es ih =>
    rw [layerEntries]
    rcases List.mem_cons.1 h with rfl | h
    · obtain ⟨k, hk, hkey⟩ := exists_key_putEntry e.1 (layer (under? e.1 below) e.2) below
      exact ⟨k, keys_subset_layerEntries _ hk, hkey⟩
    · exact ih h _

/-- Upper entries under keys that are there leave the keys and their order. -/
theorem keys_layerEntries (h : ∀ e ∈ es, ∃ t, e.1 = .text t ∧ .text t ∈ below.map (·.1)) :
    (layerEntries below es).map (·.1) = below.map (·.1) := by
  induction es generalizing below with
  | nil => rw [layerEntries]
  | cons e es ih =>
    obtain ⟨k, v⟩ := e
    obtain ⟨t, rfl, hmem⟩ := h _ List.mem_cons_self
    obtain ⟨d, hd, hkey⟩ := List.mem_map.1 hmem
    have hput := keys_putEntry (v := layer (under? (.text t) below) v)
      ⟨d, hd, sameKey_text_iff.2 hkey⟩
    rw [layerEntries, ih, hput]
    intro e he
    obtain ⟨t', hkey', hmem'⟩ := h e (List.mem_cons_of_mem _ he)
    exact ⟨t', hkey', hput.symm ▸ hmem'⟩

end Merging

/-! ## Sections -/

/-- The keys that name fields of a section. -/
def IsField (s : Section) (k : Value) : Prop := ∃ f ∈ s.defaults.map (·.1), k = .text f

/-- A mapping all of whose keys name fields of a section. -/
def FieldsOf (s : Section) (v : Value) : Prop := ∃ es, v = .map es ∧ ∀ e ∈ es, IsField s e.1

/-- The value that a document has for a field. -/
def fieldIn? (document : List (Value × Value)) (s : Section) (field : String) : Option Value :=
  (lookup s.name document).bind (get? field)

variable {s : Section} {es document : List (Value × Value)} {env : Environment}

theorem nodup_defaults (s : Section) : (s.defaults.map (·.1)).Nodup := by
  cases s <;> decide

theorem default_ne_map {f : String × Value} (hf : f ∈ s.defaults) (es : List (Value × Value)) :
    f.2 ≠ .map es := by
  revert f
  cases s <;> simp [Section.defaults]

theorem lookup_defaultDocument (s : Section) :
    lookup s.name defaultDocument = some (.object s.defaults) := by
  cases s <;> rfl

/-- One entry after the other is bound if all of them name fields. -/
theorem foldlM_named (shape : Shape) (bound acc : FieldValues) :
    es.foldlM (fun acc (k, v) =>
      let name := k.display
      if shape.fields.contains name then Except.ok (acc ++ [(name, v)])
      else Except.error (BindError.unexpected shape.name name)) acc = Except.ok bound ↔
      (∀ e ∈ es, e.1.display ∈ shape.fields) ∧
        bound = acc ++ es.map fun e => (e.1.display, e.2) := by
  induction es generalizing acc with
  | nil => simp [pure, Except.pure, eq_comm]
  | cons e es ih =>
    obtain ⟨k, v⟩ := e
    rw [List.foldlM_cons, List.forall_mem_cons, List.map_cons]
    by_cases hname : k.display ∈ shape.fields
    · dsimp only
      rw [if_pos (List.contains_iff_mem.2 hname)]
      refine (ih _).trans ?_
      simp [hname]
    · dsimp only
      rw [if_neg (by simpa using hname)]
      refine iff_of_false (fun h => ?_) fun h => hname h.1.1
      cases h

/-- Entries are bound to the fields of a section exactly if each of them names a field. -/
theorem bindNamed_eq_ok_iff {bound : FieldValues} :
    s.shape.bindNamed es = .ok bound ↔
      (∀ e ∈ es, IsField s e.1) ∧ bound = es.map fun e => (e.1.display, e.2) := by
  -- No field of a section is required, so that none can be missing.
  have hbind : s.shape.bindNamed es = s.shape.named es := by
    unfold Shape.bindNamed
    cases s.shape.named es <;> rfl
  rw [hbind]
  unfold Shape.named
  split_ifs with htext
  · rw [foldlM_named, List.nil_append]
    refine and_congr_left fun _ => forall₂_congr fun e he => ?_
    have hkey := List.all_eq_true.1 htext e he
    obtain ⟨k, v⟩ := e
    cases k with
    | text t => simp [IsField, Value.display, Shape.fields, Section.shape]
    | _ => cases hkey
  · refine iff_of_false (fun h => by cases h) fun h => htext (List.all_eq_true.2 fun e he => ?_)
    obtain ⟨k, v⟩ := e
    obtain ⟨t, -, rfl⟩ := h.1 _ he
    rfl

/-- **The entries of a section over its defaults.** -/
theorem bind_layerEntries (h : Apart es) (hfields : ∀ e ∈ es, IsField s e.1) :
    s.shape.bindNamed (layerEntries (s.defaults.map fun f => (.text f.1, f.2)) es) =
      .ok (s.defaults.map fun f => (f.1, (lookup f.1 es).getD f.2)) := by
  have hkeys : (layerEntries _ es).map (·.1) =
      (s.defaults.map fun f => (.text f.1, f.2)).map (·.1) :=
    keys_layerEntries fun e he => by
      obtain ⟨t, hmem, ht⟩ := hfields e he
      exact ⟨t, ht, by simpa using hmem⟩
  have hnamed : ∀ e ∈ layerEntries (s.defaults.map fun f => (.text f.1, f.2)) es,
      IsField s e.1 := by
    intro e he
    have hkey := List.mem_map_of_mem (f := (·.1)) he
    rw [hkeys, List.map_map] at hkey
    obtain ⟨f, hf, hkey⟩ := List.mem_map.1 hkey
    exact ⟨f.1, List.mem_map_of_mem hf, hkey.symm⟩
  have hapart := (apart_fields (nodup_defaults s)).of_map_eq hkeys
  -- Both sides have the names of the defaults in order, so it is enough to compare under each name.
  refine bindNamed_eq_ok_iff.2 ⟨hnamed, Keyed.eq_of_map_eq (·.1) ?_ ?_⟩
  · have hdisplay := congrArg (List.map Value.display) hkeys
    simp only [List.map_map, Function.comp_def, Value.display] at hdisplay ⊢
    exact hdisplay.symm
  · intro a ha b hb hab
    obtain ⟨f, hf, rfl⟩ := List.mem_map.1 ha
    obtain ⟨e, he, rfl⟩ := List.mem_map.1 hb
    obtain ⟨t, -, ht⟩ := hnamed e he
    obtain ⟨k, v⟩ := e
    obtain rfl : k = .text t := ht
    obtain rfl : f.1 = t := hab
    have hdefault : lookup f.1 (s.defaults.map fun f => (.text f.1, f.2)) = some f.2 := by
      rw [lookup_fields, Keyed.lookup_of_mem (nodup_defaults s) hf]
    have hlookup := lookup_layerEntries h f.1 (s.defaults.map fun f => (.text f.1, f.2))
    rw [hapart.lookup_of_mem he, hdefault] at hlookup
    refine Prod.ext rfl ?_
    cases hupper : lookup f.1 es with
    | none =>
      rw [hupper] at hlookup
      exact (Option.some.inj hlookup).symm
    | some w =>
      rw [hupper] at hlookup
      dsimp only at hlookup
      rw [layer_of_not_map (default_ne_map hf)] at hlookup
      exact (Option.some.inj hlookup).symm

/-! ## Documents -/

/-- The sections that a document has are mappings from names of their fields. -/
def SectionsFit (document : List (Value × Value)) : Prop :=
  ∀ (s : Section) (v : Value), lookup s.name document = some v → FieldsOf s v

/-- A document over the defaults. -/
def mergedDocument (env : Environment) (document : List (Value × Value)) : List (Value × Value) :=
  layerEntries defaultDocument (expandEntries env document)

theorem apart_expandEntries (h : Apart es) (env : Environment) : Apart (expandEntries env es) :=
  h.of_map_eq (by rw [expandEntries_eq_map, List.map_map]; rfl)

theorem lookup_expandEntries (env : Environment) (t : String) (es : List (Value × Value)) :
    lookup t (expandEntries env es) = (lookup t es).map (expand env) := by
  rw [expandEntries_eq_map, lookup_map]

theorem lookup_mergedDocument (h : Apart document) (env : Environment) (s : Section) :
    lookup s.name (mergedDocument env document) =
      some (((lookup s.name document).map fun v =>
        layer (some (.object s.defaults)) (expand env v)).getD (.object s.defaults)) := by
  rw [mergedDocument, lookup_layerEntries (apart_expandEntries h env), lookup_expandEntries,
    lookup_defaultDocument]
  cases lookup s.name document <;> rfl

/-- **A section that fits**: the expanded values of the document over the defaults. -/
theorem sectionFields_of_fits (h : KeyedOnce document)
    (hfits : ∀ v, lookup s.name document = some v → FieldsOf s v) :
    sectionFields (mergedDocument env document) s = .ok (s.defaults.map fun f =>
      (f.1, ((fieldIn? document s f.1).map (expand env)).getD f.2)) := by
  unfold sectionFields
  rw [lookup_mergedDocument h.apart]
  cases hv : lookup s.name document with
  | none =>
    have hbind := bind_layerEntries (s := s) .nil fun _ he => absurd he List.not_mem_nil
    rw [layerEntries] at hbind
    simp only [Option.map_none, Option.getD_none, Value.object]
    rw [hbind]
    simp [fieldIn?, hv, lookup, Except.mapError]
  | some v =>
    obtain ⟨es, rfl, hfields⟩ := hfits v hv
    have hapart := h.below _ (mem_of_lookup hv) es rfl
    have hbind := bind_layerEntries (s := s) (apart_expandEntries hapart env) fun e he => by
      rw [expandEntries_eq_map] at he
      obtain ⟨d, hd, rfl⟩ := List.mem_map.1 he
      exact hfields d hd
    simp only [Option.map_some, Option.getD_some, expand, Value.object, layer_map]
    rw [hbind]
    simp [fieldIn?, hv, Value.get?, lookup_expandEntries, Except.mapError]

/-- **A section that does not fit** cannot be filled. -/
theorem sectionFields_of_unfit (h : KeyedOnce document) {v : Value}
    (hv : lookup s.name document = some v) (hunfit : ¬ FieldsOf s v) (env : Environment) :
    ∃ cause, sectionFields (mergedDocument env document) s = .error cause := by
  unfold sectionFields
  rw [lookup_mergedDocument h.apart, hv, Option.map_some, Option.getD_some]
  cases v with
  | map es =>
    simp only [expand, Value.object, layer_map]
    cases hbind : s.shape.bindNamed
        (layerEntries (s.defaults.map fun f => (.text f.1, f.2)) (expandEntries env es)) with
    | error e => exact ⟨_, rfl⟩
    | ok bound =>
      refine absurd ⟨es, rfl, fun e he => ?_⟩ hunfit
      have hmem : (e.1, expand env e.2) ∈ expandEntries env es := by
        rw [expandEntries_eq_map]
        exact List.mem_map_of_mem (f := fun e => (e.1, expand env e.2)) he
      obtain ⟨k, hk, hkey⟩ := exists_key_layerEntries hmem
        (s.defaults.map fun f => (.text f.1, f.2))
      obtain ⟨d, hd, rfl⟩ := List.mem_map.1 hk
      obtain ⟨t, ht, hname⟩ := (bindNamed_eq_ok_iff.1 hbind).1 d hd
      refine ⟨t, ht, ?_⟩
      rcases hkey with hkey | hkey
      · exact hkey.symm.trans hname
      · rw [hname] at hkey
        exact (text_sameKey_iff.1 hkey).symm
  | _ => exact ⟨_, rfl⟩

/-- Settings are told by the fields of their sections. -/
theorem ext_fields {a b : Settings} (h : ∀ s, a.fields s = b.fields s) : a = b :=
  congrArg Settings.mk (funext h)

theorem ofDocument_eq_ok_iff {settings : Settings} :
    ofDocument env document = .ok settings ↔
      ∀ s, sectionFields (mergedDocument env document) s = .ok (settings.fields s) := by
  constructor
  · intro h
    obtain ⟨_, hdatabase, h⟩ := exists_of_bind h
    obtain ⟨_, hmodels, h⟩ := exists_of_bind h
    obtain ⟨_, hindex, h⟩ := exists_of_bind h
    obtain ⟨_, hretrieval, h⟩ := exists_of_bind h
    obtain ⟨_, hserver, h⟩ := exists_of_bind h
    obtain rfl := Except.ok.inj h
    intro s
    cases s <;> assumption
  · intro h
    have hsections : ∀ s, sectionFields (layerEntries defaultDocument
        (expandEntries env document)) s = .ok (settings.fields s) := h
    unfold ofDocument
    dsimp only
    rw [hsections, hsections, hsections, hsections, hsections]
    refine congrArg Except.ok (ext_fields fun s => ?_)
    cases s <;> rfl

/-- The settings that a document gives if its sections fit. -/
def documentSettings (env : Environment) (document : List (Value × Value)) : Settings :=
  ⟨fun s => s.defaults.map fun f => (f.1, ((fieldIn? document s f.1).map (expand env)).getD f.2)⟩

theorem ofDocument_of_fits (h : KeyedOnce document) (hfits : SectionsFit document)
    (env : Environment) :
    ofDocument env document = .ok (documentSettings env document) :=
  ofDocument_eq_ok_iff.2 fun s => sectionFields_of_fits h (hfits s)

theorem ofDocument_of_unfit (h : KeyedOnce document) (hunfit : ¬ SectionsFit document)
    (env : Environment) :
    ∃ cause, ofDocument env document = .error cause := by
  unfold SectionsFit at hunfit
  push Not at hunfit
  obtain ⟨s, v, hv, hunfit⟩ := hunfit
  cases hdocument : ofDocument env document with
  | error cause => exact ⟨cause, rfl⟩
  | ok settings =>
    obtain ⟨cause, hcause⟩ := sectionFields_of_unfit h hv hunfit env
    rw [ofDocument_eq_ok_iff.1 hdocument s] at hcause
    cases hcause

/-! ## Overrides -/

/-- Whether a value is one to override another; a null is not. -/
def isGiven (v : Value) : Bool := !(v matches .null)

/-- The value that is given for a field. -/
def givenFor? (given : List (String × Value)) (s : Section) (field : String) : Option Value :=
  ((given.lookup s.name).bind (get? field)).filter isGiven

/-- Values for fields of sections, no section and no field twice. -/
structure FieldsGiven (given : List (String × Value)) : Prop where
  nodup : (given.map (·.1)).Nodup
  known : ∀ g ∈ given, ∃ (s : Section) (es : List (Value × Value)), g = (s.name, .map es) ∧
    Apart es ∧ ∀ e ∈ es, IsField s e.1

/-- The settings that overrides leave. -/
def overridden (given : List (String × Value)) (settings : Settings) : Settings :=
  ⟨fun s => (settings.fields s).map fun f => (f.1, (givenFor? given s f.1).getD f.2)⟩

theorem ofName?_name (s : Section) : Section.ofName? s.name = some s := by
  cases s <;> rfl

theorem name_inj {s s' : Section} : s.name = s'.name ↔ s = s' := by
  refine ⟨fun h => Option.some.inj ?_, fun h => h ▸ rfl⟩
  rw [← ofName?_name s, h, ofName?_name]

theorem lookup_display (h : ∀ e ∈ es, ∃ t, e.1 = .text t) (t : String) :
    (es.map fun e => (e.1.display, e.2)).lookup t = lookup t es := by
  have htexts : ((es.map fun e => (e.1.display, e.2)).map fun f => (Value.text f.1, f.2)) = es := by
    rw [List.map_map]
    refine (List.map_congr_left fun e he => ?_).trans (List.map_id es)
    obtain ⟨t, ht⟩ := h e he
    exact Prod.ext (by simp [ht, Value.display]) rfl
  rw [← lookup_fields, htexts]

/-- **The values given for one section** stand in place of those that the settings have there. -/
theorem overrideSection_eq (h : Apart es) (hfields : ∀ e ∈ es, IsField s e.1)
    (settings : Settings) : settings.overrideSection s es =
      .ok ((settings.fields s).map fun f => (f.1, ((lookup f.1 es).filter isGiven).getD f.2)) := by
  have hkept : ∀ e ∈ es.filter fun e => isGiven e.2, IsField s e.1 := fun e he =>
    hfields e (List.mem_filter.1 he).1
  have hlookup : ∀ t, ((es.filter fun e => isGiven e.2).map fun e => (e.1.display, e.2)).lookup t =
      (lookup t es).filter isGiven := fun t => by
    refine (lookup_display (fun e he => ?_) t).trans (h.lookup_filter isGiven t)
    obtain ⟨t, -, ht⟩ := hkept e he
    exact ⟨t, ht⟩
  have hbind := bindNamed_eq_ok_iff.2 ⟨hkept, rfl⟩
  unfold overrideSection
  change (if (es.filter fun e => isGiven e.2).isEmpty then _ else _) = _
  split_ifs with hempty
  · have hnone : ∀ t, (lookup t es).filter isGiven = none := fun t => by
      rw [← h.lookup_filter, List.isEmpty_iff.1 hempty]
      rfl
    simp [hnone, pure, Except.pure]
  · change ((s.shape.bindNamed (es.filter fun e => isGiven e.2)).mapError _ >>= _) = _
    rw [hbind]
    refine congrArg Except.ok (List.map_congr_left fun f _ => ?_)
    dsimp only
    rw [hlookup]

/-- Overriding one section. -/
def overrideWith (base settings : Settings) (g : String × Value) : Except OverrideError Settings :=
  match Section.ofName? g.1, g.2 with
  | none, _ => .error (.unknownSection g.1)
  | some s, .map entries => do
    let fields ← overrideSection base s entries
    return ⟨fun t => if t = s then fields else settings.fields t⟩
  | some _, v => .error (.notMapping v.typeName)

theorem override_eq_foldlM (settings : Settings) (given : List (String × Value)) :
    settings.override given = given.foldlM (overrideWith settings) settings := rfl

/-- **Overriding one section** leaves the others. -/
theorem overrideWith_eq (h : Apart es) (hfields : ∀ e ∈ es, IsField s e.1)
    (base settings : Settings) : overrideWith base settings (s.name, .map es) = .ok ⟨fun t =>
      if t = s then (overridden [(s.name, .map es)] base).fields s else settings.fields t⟩ := by
  simp only [overrideWith, ofName?_name, overrideSection_eq h hfields]
  simp [overridden, givenFor?, Value.get?, bind, Except.bind, pure, Except.pure]

variable {given : List (String × Value)}

/-- **One section after the other is overridden**; sections that are not given stay. -/
theorem foldlM_overrideWith (h : FieldsGiven given) (base settings : Settings) :
    given.foldlM (overrideWith base) settings = .ok ⟨fun s =>
      if s.name ∈ given.map (·.1) then (overridden given base).fields s
      else settings.fields s⟩ := by
  induction given generalizing settings with
  | nil => rfl
  | cons g given ih =>
    obtain ⟨s, es, rfl, hapart, hfields⟩ := h.known g List.mem_cons_self
    obtain ⟨hfront, hnodup⟩ := List.nodup_cons.1 h.nodup
    -- The rest starts from settings with this section overridden, and does not give it again.
    have hrest := ih ⟨hnodup, fun g hg => h.known g (List.mem_cons_of_mem _ hg)⟩
    rw [List.foldlM_cons, overrideWith_eq hapart hfields]
    refine (hrest _).trans (congrArg Except.ok (ext_fields fun t => ?_))
    by_cases ht : t = s
    · subst ht
      simp [hfront, overridden, givenFor?]
    · have hname : t.name ≠ s.name := mt name_inj.1 ht
      have hlookup : ∀ f, givenFor? ((s.name, .map es) :: given) t f = givenFor? given t f :=
        fun f => by rw [givenFor?, givenFor?, Keyed.lookup_cons_of_ne hname]
      have hmem : t.name ∈ ((s.name, Value.map es) :: given).map (·.1) ↔
          t.name ∈ given.map (·.1) := List.mem_cons.trans (or_iff_right hname)
      simp only [hmem, if_neg ht, overridden, hlookup]

/-- **What overrides leave**: their values, and where there is none what the settings had. -/
theorem override_eq (h : FieldsGiven given) (settings : Settings) :
    settings.override given = .ok (overridden given settings) := by
  rw [override_eq_foldlM, foldlM_overrideWith h]
  refine congrArg Except.ok (ext_fields fun s => ?_)
  dsimp only
  split_ifs with hs
  · rfl
  · have hnone : given.lookup s.name = none := by
      rwa [← Keyed.isSome_lookup_iff, Option.not_isSome_iff_eq_none] at hs
    simp [overridden, givenFor?, hnone]

/-- Overriding once more changes nothing. -/
theorem overridden_overridden (given : List (String × Value)) (settings : Settings) :
    overridden given (overridden given settings) = overridden given settings := by
  refine ext_fields fun s => ?_
  simp only [overridden, List.map_map]
  refine List.map_congr_left fun f _ => Prod.ext rfl ?_
  cases hgiven : givenFor? given s f.1 <;> simp [hgiven]

end DocSearch.Settings
