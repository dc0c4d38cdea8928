import LuaGlue.Proofs.Interface.Copies

/-!
# Which buffers a struct owns

A loaded interface marks no buffer (`parse_unmarked`), and a manifest marks, on each struct, the buffers
that its rules name for the struct, in their order and each as often as it is named
(`attached_buffers`). So what holds of the buffers of a struct is what holds of the rules: nothing looks at
two of them together.
-/

set_option autoImplicit false

namespace LuaGlue

/-! ## Loading marks nothing -/

/-- No buffer is marked, if it is a struct. -/
def Declaration.Unmarked : Declaration → Prop
  | .struct s => s.ownedBuffers = []
  | .function _ | .enum _ | .consts _ => True

theorem convert_unmarked {r : DeclRecord} {index : Nat} {d : Declaration}
    (h : r.convert index = .ok (some d)) : d.Unmarked := by
  have items {f : List EnumItem → Declaration} (hf : ∀ items, (f items).Unmarked) {owner : String}
      (h : (convertItems owner r.items).map (fun items => some (f items)) = .ok (some d)) : d.Unmarked := by
    cases hitems : convertItems owner r.items with
    | error fault =>
      rw [hitems] at h
      cases h
    | ok items =>
      rw [hitems] at h
      cases h
      exact hf items
  unfold DeclRecord.convert at h
  split at h
  · repeat' split at h
    all_goals cases h
    trivial
  iterate 2
    split at h <;> cases h
    rfl
  · cases hname : properName r.name with
    | some name =>
      rw [hname] at h
      exact items (f := fun is => .enum ⟨name, is⟩) (fun _ => trivial) h
    | none =>
      rw [hname] at h
      exact items (f := fun is => .consts ⟨is⟩) (fun _ => trivial) h
  · exact items (f := fun is => .consts ⟨is⟩) (fun _ => trivial) h
  · cases h

theorem addAll_unmarked {overloads : Bool} {found : List (Bool × Declaration)} :
    ∀ {l : Loading}, (∀ d ∈ l.decls, d.Unmarked) → (∀ e ∈ found, e.2.Unmarked) →
      ∀ d ∈ (l.addAll overloads found).decls, d.Unmarked := by
  induction found with
  | nil => exact fun hl _ => hl
  | cons e rest ih =>
    intro l hl hfound
    obtain ⟨he, hrest⟩ := List.forall_mem_cons.mp hfound
    refine ih (l := l.add overloads e.1 e.2) ?_ hrest
    unfold Loading.add
    split
    · exact hl
    · dsimp only
      split
      · exact hl
      · exact List.forall_mem_append.mpr ⟨hl, List.forall_mem_singleton.mpr he⟩

theorem parse_unmarked {overloads : Bool} {text : String} {i : Interface}
    (h : Interface.parse overloads text = .ok i) : ∀ d ∈ i.decls, d.Unmarked := by
  obtain ⟨j, document, found, -, -, hfound, rfl⟩ := parse_ok.mp h
  obtain ⟨-, rfl⟩ := convertAll_ok_iff.mp hfound
  refine addAll_unmarked (by simp) fun e he => ?_
  obtain ⟨r, -, hr⟩ := List.mem_filterMap.mp he
  unfold DeclRecord.found? at hr
  split at hr <;> cases hr
  exact convert_unmarked ‹_›

/-! ## What rules mark -/

/-- The buffers that some rules name for a struct. -/
def buffersBy (rules : List OwnedBufferRule) (struct : String) : List OwnedBuffer :=
  (rules.filter (·.struct == struct)).map fun rule => ⟨rule.pointer, rule.count⟩

/-- The declaration with the buffers that some rules name for it, if it is a struct. -/
def Declaration.markedBy (rules : List OwnedBufferRule) : Declaration → Declaration
  | .struct s => .struct { s with ownedBuffers := s.ownedBuffers ++ buffersBy rules s.name }
  | d => d

theorem Declaration.markedBy_nil (d : Declaration) : d.markedBy [] = d := by
  cases d <;> simp [markedBy, buffersBy]

theorem Declaration.markedBy_cons (rule : OwnedBufferRule) (rest : List OwnedBufferRule)
    (d : Declaration) : (d.markedBy [rule]).markedBy rest = d.markedBy (rule :: rest) := by
  cases d with
  | struct s =>
    simp only [markedBy, buffersBy, List.filter_cons, List.filter_nil]
    split <;> simp
  | function f | enum e | consts g => rfl

/-- A declaration that is not the struct that a rule names. -/
theorem Declaration.markedBy_other {rule : OwnedBufferRule} {d : Declaration} {overloads : Bool}
    (h : d.identity overloads ≠ .struct rule.struct) : d.markedBy [rule] = d := by
  cases d with
  | struct s =>
    have hname : (rule.struct == s.name) = false :=
      beq_eq_false_iff_ne.mpr fun heq => h (congrArg Identity.struct heq.symm)
    simp [markedBy, buffersBy, hname]
  | function f | enum e | consts g => rfl

section

variable {overloads : Bool}

/-- A rule marks the struct that it names, of which there is only one. -/
theorem attach_eq_map {rule : OwnedBufferRule} : ∀ {decls decls' : List Declaration},
    (decls.map (Declaration.identity overloads)).Nodup → rule.attach decls = .ok decls' →
      decls' = decls.map (Declaration.markedBy [rule]) := by
  intro decls
  induction decls with
  | nil =>
    intro decls' _ h
    cases h
    rfl
  | cons d rest ih =>
    intro decls' hnodup h
    obtain ⟨hd, hrest⟩ := List.nodup_cons.mp hnodup
    have passed (hother : d.identity overloads ≠ .struct rule.struct)
        (h : (rule.attach rest).map (d :: ·) = .ok decls') :
        decls' = (d :: rest).map (Declaration.markedBy [rule]) := by
      cases hattach : rule.attach rest with
      | error fault =>
        rw [hattach] at h
        cases h
      | ok rest' =>
        rw [hattach] at h
        cases h
        rw [List.map_cons, Declaration.markedBy_other hother, ih hrest hattach]
    cases d with
    | struct s =>
      unfold OwnedBufferRule.attach at h
      split at h
      · rename_i hname
        have hname : s.name = rule.struct := eq_of_beq hname
        split at h <;> cases h
        -- no declaration after the struct is marked, for none has its name
        have hothers : rest.map (Declaration.markedBy [rule]) = rest := by
          refine (List.map_congr_left fun d' hd' => ?_).trans (List.map_id rest)
          have hother : d'.identity overloads ≠ .struct rule.struct := fun heq =>
            hd (List.mem_map.mpr ⟨d', hd', heq.trans (congrArg Identity.struct hname.symm)⟩)
          exact Declaration.markedBy_other hother
        rw [List.map_cons, hothers]
        simp [Declaration.markedBy, buffersBy, hname]
      · rename_i hname
        refine passed (fun heq => hname ?_) h
        simpa [Declaration.identity] using heq
    | function f =>
      refine passed (fun heq => ?_) h
      cases overloads <;> cases heq
    | enum e | consts g => exact passed (fun heq => by cases heq) h

theorem attachAll_eq_map {rules : List OwnedBufferRule} : ∀ {decls decls' : List Declaration},
    (decls.map (Declaration.identity overloads)).Nodup →
      rules.foldlM (fun decls (rule : OwnedBufferRule) => rule.attach decls) decls = .ok decls' →
      decls' = decls.map (Declaration.markedBy rules) := by
  induction rules with
  | nil =>
    intro decls decls' _ h
    cases h
    exact ((List.map_congr_left fun d _ => d.markedBy_nil).trans (List.map_id decls)).symm
  | cons rule rest ih =>
    intro decls decls' hnodup h
    rw [List.foldlM_cons] at h
    cases hrule : rule.attach decls with
    | error fault =>
      rw [hrule] at h
      cases h
    | ok decls₁ =>
      rw [hrule] at h
      rw [ih (attach_identities rule hrule ▸ hnodup) h, attach_eq_map hnodup hrule, List.map_map]
      exact List.map_congr_left fun d _ => d.markedBy_cons rule rest

/-- **The buffers of a struct are those that the manifest names for it.** -/
theorem attached_buffers {text : String} {m : Manifest} {loaded i : Interface}
    (hparse : Interface.parse overloads text = .ok loaded)
    (hattach : m.attachOwnedBuffers loaded = .ok i) {s : StructDecl} (hs : s ∈ i.structs) :
    s.ownedBuffers = buffersBy m.ownedBuffers s.name := by
  unfold Manifest.attachOwnedBuffers at hattach
  cases hdecls : m.ownedBuffers.foldlM (fun decls (rule : OwnedBufferRule) => rule.attach decls)
      loaded.decls with
  | error fault =>
    rw [hdecls] at hattach
    cases hattach
  | ok decls =>
    rw [hdecls] at hattach
    cases hattach
    obtain rfl := attachAll_eq_map (parse_identities hparse) hdecls
    obtain ⟨d, hd, heq⟩ := List.mem_map.mp (declared_of_mem_structs hs)
    have hunmarked := parse_unmarked hparse d hd
    cases d with
    | struct s₀ =>
      cases heq
      exact congrArg (· ++ buffersBy m.ownedBuffers s₀.name) hunmarked
    | function f | enum e | consts g => cases heq

end

end LuaGlue
