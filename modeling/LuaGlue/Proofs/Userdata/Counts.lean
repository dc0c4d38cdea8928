import LuaGlue.Proofs.Interface.Attached
import LuaGlue.Proofs.Userdata.Buffers

/-!
# Whose count is trusted

The getter of a buffer and the collector find a buffer's elements by its count, and what they find there
must have been written with the buffer. It has been if every field takes part in one buffer at most
(`BuffersApart`): then a count is written by the setter of its own buffer and zeroed by the collector, and
nothing else of the struct's text writes it (`counts_trusted`). But this is nowhere asked for, since the
buffers of a struct are whatever the manifest names for it, and when two buffers share a count, the
setter of one changes the count that the getter of the other goes by (`count_shared`).
-/

set_option autoImplicit false

namespace LuaGlue

/-- No field takes part in two buffers, and none in one of them twice. -/
structure BuffersApart (buffers : List OwnedBuffer) : Prop where
  pointers : (buffers.map (·.pointerField)).Nodup
  counts : (buffers.map (·.countField)).Nodup
  disjoint : ∀ b ∈ buffers, ∀ b' ∈ buffers, b.pointerField ≠ b'.countField

instance (buffers : List OwnedBuffer) : Decidable (BuffersApart buffers) :=
  decidable_of_iff ((buffers.map (·.pointerField)).Nodup ∧ (buffers.map (·.countField)).Nodup ∧
      ∀ b ∈ buffers, ∀ b' ∈ buffers, b.pointerField ≠ b'.countField)
    ⟨fun ⟨pointers, counts, disjoint⟩ => ⟨pointers, counts, disjoint⟩,
      fun h => ⟨h.pointers, h.counts, h.disjoint⟩⟩

/-- A field that holds a number and nothing else: its name is not a path, it is no callback, and the
constructor does not take a string into it. -/
structure IsPlainCount (ctx : Context) (struct : String) (fields : List Accessor) (count : String) :
    Prop where
  undotted : '.' ∉ count.toList
  no_callback : ∀ a ∈ fields, a.access = .callback → a.key ≠ count
  no_range : ∀ r, ctx.byteRange? struct = some r → count ≠ r.pointer ∧ count ≠ r.size

/-- Entries of one count are one entry. -/
theorem BuffersApart.bit_eq {buffers : List OwnedBuffer} (h : BuffersApart buffers) {bit bit' : Nat}
    {b b' : OwnedBuffer} (hb : buffers[bit]? = some b) (hb' : buffers[bit']? = some b')
    (hcount : b.countField = b'.countField) : bit = bit' := by
  obtain ⟨hlt, rfl⟩ := List.getElem?_eq_some_iff.mp hb
  obtain ⟨hlt', rfl⟩ := List.getElem?_eq_some_iff.mp hb'
  have hk : bit < (buffers.map (·.countField)).length := by simpa using hlt
  have hl : bit' < (buffers.map (·.countField)).length := by simpa using hlt'
  have hsame : (buffers.map (·.countField))[bit] = (buffers.map (·.countField))[bit'] := by
    rw [List.getElem_map, List.getElem_map, hcount]
  exact h.counts.getElem_inj_iff.mp hsame

/-- A path that is written in filling a buffer is its field or its count. -/
theorem Accessor.refills_path {ctx : Context} {struct : String} {a : Accessor} {bit : Nat}
    {countField countType path : String} {d : Site × Deed}
    (hd : d ∈ a.refills ctx struct bit countField countType) (hpath : d.2.path? = some path) :
    path = a.path ∨ path = countField := by
  simp only [Accessor.refills, List.mem_cons, List.not_mem_nil, or_false] at hd
  rcases hd with rfl | rfl | rfl | rfl | rfl | rfl | rfl | rfl | rfl | rfl <;> cases hpath <;> simp

/-- A path that the collector writes is that of a buffer or of its count. -/
theorem Accessor.collects_path {ctx : Context} {struct path : String} {a : Accessor} {d : Site × Deed}
    (hd : d ∈ a.collects ctx struct) (hpath : d.2.path? = some path) :
    ∃ bit countField countType elem, a.access = .ownedBuffer bit countField countType elem ∧
      (path = a.path ∨ path = countField) ∧ d.1 = (collectorSite struct).under (.owns bit) := by
  unfold Accessor.collects at hd
  cases ha : a.access with
  | ownedBuffer bit countField countType elem =>
    rw [ha] at hd
    simp only [List.mem_cons, List.not_mem_nil, or_false] at hd
    refine ⟨bit, countField, countType, elem, rfl, ?_⟩
    rcases hd with rfl | rfl | rfl <;> cases hpath <;> simp
  | value | callback | ownedCount pointer =>
    rw [ha] at hd
    exact absurd hd List.not_mem_nil

namespace DeedsOf

variable {ctx : Context} {m : Memo} {struct : StructDecl} {fields : List Accessor}
  {setters : List (Accessor × Code)} {range : Option ByteRange} {deeds : List (Site × Deed)}
  {a : Accessor} {bit : Nat} {countField countType elem : String}

/-- If what is written belongs to a buffer and is the count of another one, the two are one. -/
theorem eq_of_count (h : DeedsOf ctx m struct fields setters range deeds)
    (hapart : BuffersApart struct.ownedBuffers) (ha : a ∈ fields)
    (haccess : a.access = .ownedBuffer bit countField countType elem) {a' : Accessor} (ha' : a' ∈ fields)
    {bit' : Nat} {countField' countType' elem' : String}
    (haccess' : a'.access = .ownedBuffer bit' countField' countType' elem')
    (hcount : countField = a'.path ∨ countField = countField') : a'.key = a.key ∧ bit' = bit := by
  obtain ⟨-, hentry⟩ := (h.accessors a ha).buffer_entry haccess
  obtain ⟨hpath, hentry'⟩ := (h.accessors a' ha').buffer_entry haccess'
  rcases hcount with hcount | hcount
  · exact absurd (hpath.symm.trans hcount.symm)
      (hapart.disjoint _ (List.mem_of_getElem? hentry') _ (List.mem_of_getElem? hentry))
  · obtain rfl := hapart.bit_eq hentry hentry' hcount
    exact ⟨congrArg OwnedBuffer.pointerField (Option.some.inj (hentry'.symm.trans hentry)), rfl⟩

/-- A field that is set by itself is not the count of a buffer. -/
theorem path_ne_count (h : DeedsOf ctx m struct fields setters range deeds) (ha : a ∈ fields)
    (haccess : a.access = .ownedBuffer bit countField countType elem)
    (hplain : IsPlainCount ctx struct.name fields countField) {a' : Accessor} (ha' : a' ∈ fields)
    (hvalue : a'.access = .value ∨ a'.access = .callback) : a'.path ≠ countField := by
  obtain ⟨-, hentry⟩ := (h.accessors a ha).buffer_entry haccess
  rintro rfl
  have hof := h.accessors a' ha'
  generalize hsame : a' = a'' at hof
  cases hof with
  | callback hf =>
    refine hplain.no_callback a' ha' (by rw [hsame]; rfl) ?_
    rw [hsame]
    rfl
  | buffer | count => rcases hvalue with hvalue | hvalue <;> rw [hsame] at hvalue <;> cases hvalue
  | value hf hno hcount =>
    have hnone := List.find?_eq_none.mp hcount _ (List.mem_of_getElem? hentry)
    rw [hsame] at hnone
    simp [Field.accessor] at hnone
  | member =>
    refine hplain.undotted ?_
    rw [hsame]
    simp [String.toList_append]

/-- **The count of a buffer is written with the buffer**: by its setter, or when the buffer is freed. -/
theorem count_written (h : DeedsOf ctx m struct fields setters range deeds)
    (hapart : BuffersApart struct.ownedBuffers) (ha : a ∈ fields)
    (haccess : a.access = .ownedBuffer bit countField countType elem)
    (hplain : IsPlainCount ctx struct.name fields countField) {d : Site × Deed} (hd : d ∈ deeds)
    (hpath : d.2.path? = some countField) :
    d.1.function = some (.setter struct.name a.key) ∨
      d.1 = (collectorSite struct.name).under (.owns bit) := by
  rcases h.mem_iff.mp hd with ⟨⟨a', body⟩, hp, hd⟩ | hd | ⟨-, hd⟩
  · have ha' : a' ∈ fields := h.mem_fields hp
    have hbody : Sets ctx m struct.name a' body := h.bodies _ hp
    change d ∈ body.deeds (a'.setterSite struct.name) at hd
    -- a field of another sort is set by itself, and so is not the count
    have other (hvalue : a'.access = .value ∨ a'.access = .callback) : False := by
      have hnot : a'.isOwnedBuffer = false := by
        rcases hvalue with hvalue | hvalue <;> rw [Accessor.isOwnedBuffer, hvalue]
      obtain ⟨path, hpath', hwritten⟩ := hbody.deeds (h.accessors a' ha').callback_path hnot _ d hd
      cases hpath'
      exact h.path_ne_count ha haccess hplain ha' hvalue (Option.some.inj (hwritten.symm.trans hpath))
    cases hbody with
    | value hvalue => exact (other (.inl hvalue)).elim
    | callback hcallback => exact (other (.inr hcallback)).elim
    | ownedBuffer haccess' hk inside =>
      have hfunction := Code.deeds_function rfl d hd
      rw [bufferSetterCode_deeds (inside.idle rfl)] at hd
      obtain ⟨hkey, -⟩ := h.eq_of_count hapart ha haccess ha' haccess' (Accessor.refills_path hd hpath)
      exact .inl (hkey ▸ hfunction)
  · exfalso
    obtain ⟨r, rfl⟩ : ∃ r, range = some r := by
      cases range with
      | none => exact absurd hd List.not_mem_nil
      | some r => exact ⟨r, rfl⟩
    obtain ⟨hpointer, hsize⟩ := hplain.no_range r (h.byteRange r rfl)
    simp only [rangeDeeds, List.mem_cons, List.not_mem_nil, or_false] at hd
    rcases hd with rfl | rfl <;> cases hpath
    · exact hpointer rfl
    · exact hsize rfl
  · rcases List.mem_append.mp hd with hd | hd
    · obtain ⟨a', ha', hd⟩ := List.mem_flatMap.mp hd
      obtain ⟨bit', _, _, _, haccess', hwritten, hsite⟩ := Accessor.collects_path hd hpath
      obtain ⟨-, rfl⟩ := h.eq_of_count hapart ha haccess ha' haccess' hwritten
      exact .inr hsite
    · rw [List.mem_singleton.mp hd] at hpath
      cases hpath

end DeedsOf

/-! ## The buffers of a module -/

/-- **Whose count is trusted.** The fields of a struct take part in one buffer at most exactly if the
manifest's rules for the struct say so, which nothing asks of them. If they do, then all that writes the
count of a buffer is the buffer's own setter, and the collector when it has freed the buffer. -/
theorem counts_trusted {overloads : Bool} {text : String} {m : Manifest} {loaded i : Interface}
    (hparse : Interface.parse overloads text = .ok loaded)
    (hattach : m.attachOwnedBuffers loaded = .ok i) :
    ∀ s ∈ i.structs,
      (BuffersApart s.ownedBuffers ↔ BuffersApart (buffersBy m.ownedBuffers s.name)) ∧
      (BuffersApart s.ownedBuffers → (s.fields.map (·.name)).Nodup →
        ∀ (ctx : Context) (t t' : Scratch) (binding : StructBinding) (code : Code),
          bindStruct ctx s t = (.written binding code, t') →
          ∃ fields, ((accessors ctx s).run t.memo).1 = .ok fields ∧
            ∀ a ∈ fields, ∀ bit countField countType elem,
              a.access = .ownedBuffer bit countField countType elem →
              IsPlainCount ctx s.name fields countField →
              ∀ d ∈ code.deeds {}, d.2.path? = some countField →
                d.1.function = some (.setter s.name a.key) ∨
                  d.1 = (collectorSite s.name).under (.owns bit)) := by
  intro s hs
  constructor
  · rw [attached_buffers hparse hattach hs]
  · intro hapart hnames ctx t t' binding code h
    obtain ⟨fields, setters, range, hfields, hdeeds⟩ := bindStruct_deedsOf hnames h
    exact ⟨fields, hfields, fun a ha bit countField countType elem haccess hplain d hd hpath =>
      hdeeds.count_written hapart ha haccess hplain hd hpath⟩

/-! ## Two buffers of one count -/

/-- A struct with two pointers and one number. -/
def meshText : String :=
  "[[\"struct\",\"Mesh\",null,[],[[\"points\",\"float*\"],[\"marks\",\"int*\"],[\"count\",\"int\"]]]]"

def meshFields : List Field := [⟨"points", "float*"⟩, ⟨"marks", "int*"⟩, ⟨"count", "int"⟩]

def mesh (buffers : List OwnedBuffer) : Interface where
  decls := [.struct ⟨"Mesh", meshFields, buffers⟩]

/-- The first of the rules by itself is as it should be. -/
theorem counts_trusted_mesh : ∃ binding code t',
    Interface.parse false meshText = .ok (mesh []) ∧
      ({ ownedBuffers := [⟨"Mesh", "points", "count"⟩] } : Manifest).attachOwnedBuffers (mesh []) =
        .ok (mesh [⟨"points", "count"⟩]) ∧
      bindStruct (Classifying.fresh (Context.build (mesh [⟨"points", "count"⟩]) {}))
        ⟨"Mesh", meshFields, [⟨"points", "count"⟩]⟩ {} = (.written binding code, t') ∧
      ∀ d ∈ code.deeds {}, d.2.path? = some "count" →
        d.1.function = some (.setter "Mesh" "points") ∨ d.1 = (collectorSite "Mesh").under (.owns 0) := by
  have hparse : Interface.parse false meshText = .ok (mesh []) := by decide +kernel
  have hattach : ({ ownedBuffers := [⟨"Mesh", "points", "count"⟩] } : Manifest).attachOwnedBuffers
      (mesh []) = .ok (mesh [⟨"points", "count"⟩]) := by decide +kernel
  obtain ⟨binding, code, t', h, -⟩ := Draft.exists_written
    (bindStruct (Classifying.fresh (Context.build (mesh [⟨"points", "count"⟩]) {}))
      ⟨"Mesh", meshFields, [⟨"points", "count"⟩]⟩) {} (fun _ => true) (by decide +kernel)
  have hfields : ((accessors (Classifying.fresh (Context.build (mesh [⟨"points", "count"⟩]) {}))
      ⟨"Mesh", meshFields, [⟨"points", "count"⟩]⟩).run {}).1 = .ok
        [⟨"points", "float*", "points", .ownedBuffer 0 "count" "int" "float"⟩,
         ⟨"marks", "int*", "marks", .value⟩, ⟨"count", "int", "count", .ownedCount "points"⟩] := by
    decide +kernel
  obtain ⟨-, hwritten⟩ := counts_trusted hparse hattach _ (List.mem_singleton_self _)
  obtain ⟨fields, hfields', hcounts⟩ := hwritten (by decide) (by decide) _ _ _ _ _ h
  obtain rfl := Except.ok.inj (hfields.symm.trans hfields')
  refine ⟨binding, code, t', hparse, hattach, h, hcounts _ List.mem_cons_self _ _ _ _ rfl ?_⟩
  exact ⟨by decide, by decide, fun r hr => by cases hr⟩

/-- With both of them the setter of one buffer writes the count that the getter of the other goes by. -/
theorem count_shared : ∃ binding code t',
    Interface.parse false meshText = .ok (mesh []) ∧
      ({ ownedBuffers := [⟨"Mesh", "points", "count"⟩, ⟨"Mesh", "marks", "count"⟩] } :
        Manifest).attachOwnedBuffers (mesh []) = .ok (mesh [⟨"points", "count"⟩, ⟨"marks", "count"⟩]) ∧
      ¬ BuffersApart [⟨"points", "count"⟩, ⟨"marks", "count"⟩] ∧
      bindStruct (Classifying.fresh (Context.build (mesh [⟨"points", "count"⟩, ⟨"marks", "count"⟩]) {}))
        ⟨"Mesh", meshFields, [⟨"points", "count"⟩, ⟨"marks", "count"⟩]⟩ {} = (.written binding code, t') ∧
      (∃ d ∈ code.deeds {}, d.1.function = some (.setter "Mesh" "marks") ∧
        d.2 = .assign "count" (.cast "int" (.value (.name "n")))) ∧
      ∃ p ∈ code.definitions, p.1 = .getter "Mesh" "points" ∧
        p.2.topLines.head? = some (.declare (.plain "lua_Integer" "n")
          (.choose (.notNull (.through "self" "points") "NULL")
            (.cast "lua_Integer" (.value (.through "self" "count"))) (.text "0"))) := by
  obtain ⟨binding, code, t', h, htest⟩ := Draft.exists_written
    (bindStruct (Classifying.fresh (Context.build (mesh [⟨"points", "count"⟩, ⟨"marks", "count"⟩]) {}))
      ⟨"Mesh", meshFields, [⟨"points", "count"⟩, ⟨"marks", "count"⟩]⟩) {}
    (fun code =>
      (code.deeds {}).any (fun d => d.1.function = some (.setter "Mesh" "marks") ∧
        d.2 = .assign "count" (.cast "int" (.value (.name "n")))) &&
      code.definitions.any fun p => p.1 = .getter "Mesh" "points" ∧
        p.2.topLines.head? = some (.declare (.plain "lua_Integer" "n")
          (.choose (.notNull (.through "self" "points") "NULL")
            (.cast "lua_Integer" (.value (.through "self" "count"))) (.text "0")))) (by decide +kernel)
  rw [Bool.and_eq_true, List.any_eq_true, List.any_eq_true] at htest
  obtain ⟨⟨d, hd, hwrites⟩, p, hp, htrusts⟩ := htest
  exact ⟨binding, code, t', by decide +kernel, by decide +kernel, by decide, h,
    ⟨d, hd, decide_eq_true_iff.mp hwrites⟩, p, hp, decide_eq_true_iff.mp htrusts⟩

end LuaGlue
