import SlashCommands.Proofs.CallbackSlots
import SlashCommands.Proofs.CollectedParts

/-!
# Registering callbacks

The calls that register callbacks might as well be made after all others
(`Draft.foldlM_apply_ok_iff`). So a command with callbacks is sealed exactly if the command without
them is, and each key names a starred argument of it, no two the same one (`Builder.seals_iff`,
`Builder.seals_iff_of_others`). Nothing in this depends on the order of these calls
(`Builder.seals_perm`), and a sealed command finds the callback of an argument by the key that
resolves to it (`Builder.settled_of_seals`).
-/

namespace SlashCommands

open Checked

variable {κ η : Type}

/-! ## What is registered -/

namespace Edit

/-- What the calls register, in their order. -/
def registrations (es : List (Edit κ)) : List (String × κ) :=
  es.filterMap callback?

/-- The calls that register nothing. -/
def others (es : List (Edit κ)) : List (Edit κ) :=
  es.filter fun e => e.callback?.isNone

end Edit

namespace Registrations

variable {regs regs' : List (String × κ)} {r : String × κ} {fallback : Option κ}

/-- The callbacks for one argument each. -/
def keyed (regs : List (String × κ)) : List (String × κ) :=
  regs.filter fun r => !Reference.isDefault r.1

/-- The callbacks for all other arguments. -/
def catchAlls (regs : List (String × κ)) : List κ :=
  (regs.filter fun r => Reference.isDefault r.1).map (·.2)

theorem catchAlls_cons (r : String × κ) :
    catchAlls (r :: regs) = catchAlls [r] ++ catchAlls regs := by
  rw [catchAlls, ← List.singleton_append, List.filter_append, List.map_append]
  rfl

/-- No key is blank, and at most one callback is for all other arguments, together with the one that
may be there already. -/
structure Admitted (fallback : Option κ) (regs : List (String × κ)) : Prop where
  present : ∀ r ∈ regs, Text.isBlankText r.1 = false
  single : (fallback.toList ++ catchAlls regs).length ≤ 1

theorem admitted_cons_iff :
    Admitted fallback (r :: regs) ↔ Admitted fallback [r]
      ∧ Admitted (fallback.or (catchAlls [r]).head?) regs := by
  have hsplit : catchAlls (r :: regs) = catchAlls [r] ++ catchAlls regs := catchAlls_cons r
  have hone : (catchAlls [r]).length ≤ 1 := by
    rw [catchAlls, List.length_map]
    exact List.length_filter_le _ _
  have hlength : fallback.toList.length + (catchAlls [r]).length ≤ 1 →
      (fallback.or (catchAlls [r]).head?).toList.length
        = fallback.toList.length + (catchAlls [r]).length := by
    rcases fallback with _ | f <;> rcases catchAlls [r] with _ | ⟨c, _ | ⟨c', cs⟩⟩ <;> simp
  constructor
  · rintro ⟨hpresent, hsingle⟩
    rw [hsplit, List.length_append, List.length_append] at hsingle
    refine ⟨⟨fun x hx => hpresent x ?_, ?_⟩, ⟨fun x hx => hpresent x ?_, ?_⟩⟩
    · rw [List.mem_singleton.1 hx]
      exact List.mem_cons_self
    · rw [List.length_append]
      omega
    · exact List.mem_cons_of_mem r hx
    · rw [List.length_append, hlength (by omega)]
      omega
  · rintro ⟨⟨hr, hfirst⟩, ⟨hpresent, hrest⟩⟩
    rw [List.length_append] at hfirst hrest
    rw [hlength hfirst] at hrest
    refine ⟨List.forall_mem_cons.2 ⟨hr r List.mem_cons_self, hpresent⟩, ?_⟩
    rw [hsplit, List.length_append, List.length_append]
    omega

theorem Admitted.perm (h : Admitted fallback regs) (hp : regs'.Perm regs) :
    Admitted fallback regs' where
  present r hr := h.present r (hp.subset hr)
  single := by
    have hlength : (catchAlls regs').length = (catchAlls regs).length :=
      ((hp.filter _).map _).length_eq
    rw [List.length_append, hlength, ← List.length_append]
    exact h.single

theorem Admitted.catchAlls_perm (h : Admitted fallback regs) (hp : regs'.Perm regs) :
    catchAlls regs' = catchAlls regs := by
  have hperm : (catchAlls regs').Perm (catchAlls regs) := (hp.filter _).map _
  have hlength := h.single
  rw [List.length_append] at hlength
  rcases hc : catchAlls regs with _ | ⟨c, _ | ⟨c', cs⟩⟩
  · exact List.perm_nil.1 (hc ▸ hperm)
  · exact List.perm_singleton.1 (hc ▸ hperm)
  · rw [hc, List.length_cons, List.length_cons] at hlength
    omega

end Registrations

open Registrations

/-! ## Registering last -/

namespace Draft

variable {d d' bare documented : Draft κ} {regs : List (String × κ)}
  {stored : List (Slot × κ)}

/-- The draft with more callbacks registered. -/
def register (d : Draft κ) (regs : List (String × κ)) : Draft κ :=
  { d with
    callbacks := d.callbacks ++ keyed regs
    callbackFallback := d.callbackFallback.or (catchAlls regs).head? }

/-- To register is to collect other things. -/
def registering (regs : List (String × κ)) : Recollection κ :=
  ⟨id, (· ++ keyed regs), (·.or (catchAlls regs).head?)⟩

theorem register_nil : d.register [] = d := by
  simp [register, keyed, catchAlls]

theorem register_cons (r : String × κ) (regs : List (String × κ)) :
    d.register (r :: regs) = (d.register [r]).register regs := by
  have hkeyed : d.callbacks ++ keyed (r :: regs) = d.callbacks ++ keyed [r] ++ keyed regs := by
    rw [List.append_assoc]
    exact congrArg _ (List.filter_append [r] regs)
  have hlast : d.callbackFallback.or (catchAlls (r :: regs)).head?
      = (d.callbackFallback.or (catchAlls [r]).head?).or (catchAlls regs).head? := by
    rw [Option.or_assoc, ← List.head?_append, ← catchAlls_cons]
  rw [register, hkeyed, hlast]
  rfl

theorem setCallback_eq_register {key : String} {callback : κ} :
    d.setCallback key callback = .ok d' ↔
      Admitted d.callbackFallback [(key, callback)] ∧ d' = d.register [(key, callback)] := by
  rw [setCallback_ok_iff]
  have hadmitted : Admitted d.callbackFallback [(key, callback)] ↔ Text.isBlankText key = false
      ∧ (Reference.isDefault key = true → d.callbackFallback = none) := by
    constructor
    · rintro ⟨hpresent, hsingle⟩
      refine ⟨hpresent _ List.mem_cons_self, fun hd => ?_⟩
      rcases hf : d.callbackFallback with _ | f
      · rfl
      · simp [hf, catchAlls, hd] at hsingle
    · rintro ⟨hblank, hfree⟩
      refine ⟨by simpa using hblank, ?_⟩
      rcases hd : Reference.isDefault key
      · rcases d.callbackFallback with _ | f <;> simp [catchAlls, hd]
      · simp [hfree hd, catchAlls, hd]
  rw [hadmitted, and_assoc]
  refine and_congr_right fun _ => ?_
  rcases hd : Reference.isDefault key
  · simp [register, keyed, catchAlls, hd]
  · simp only [true_and, reduceCtorEq, false_and, or_false, true_implies]
    refine and_congr_right fun hf => ?_
    simp [register, keyed, catchAlls, hd, hf]

/-! ### The other calls -/

theorem overlooks_others {g : Recollection κ} (h : g.docs = id) (es : List (Edit κ)) :
    Overlooks g fun d => (Edit.others es).foldlM Edit.apply d :=
  .foldlM fun _ he => Edit.overlooks_apply (fun _ => h) fun hne =>
    absurd (Option.isNone_iff_eq_none.1 (List.mem_filter.1 he).2) hne

/-- What collects no callbacks keeps those that are there. -/
theorem Overlooks.keeps {f : Draft κ → Checked (Draft κ)}
    (h : ∀ g : Recollection κ, g.docs = id → Overlooks g f) (hf : f d = .ok d') :
    d'.callbacks = d.callbacks ∧ d'.callbackFallback = d.callbackFallback := by
  have hsame := h ⟨id, fun _ => d.callbacks, fun _ => d.callbackFallback⟩ rfl d
  change f d = _ at hsame
  rw [hf] at hsame
  have hd : d' = d'.recollect ⟨id, fun _ => d.callbacks, fun _ => d.callbackFallback⟩ :=
    Except.ok.inj hsame
  rw [hd]
  exact ⟨rfl, rfl⟩

theorem keeps_of_others {es : List (Edit κ)}
    (h : (Edit.others es).foldlM Edit.apply d = .ok bare) :
    bare.callbacks = d.callbacks ∧ bare.callbackFallback = d.callbackFallback :=
  Overlooks.keeps (fun _ hg => overlooks_others hg es) h

/-- All callbacks are registered after the other calls as they are among them. -/
theorem foldlM_apply_ok_iff (es : List (Edit κ)) :
    es.foldlM Edit.apply d = .ok d' ↔
      ∃ bare, (Edit.others es).foldlM Edit.apply d = .ok bare
        ∧ Admitted d.callbackFallback (Edit.registrations es)
        ∧ d' = bare.register (Edit.registrations es) := by
  induction es generalizing d d' with
  | nil =>
    have hnil : Admitted d.callbackFallback (Edit.registrations ([] : List (Edit κ))) := by
      refine ⟨by rintro r ⟨⟩, ?_⟩
      rcases d.callbackFallback with _ | f <;> simp [Edit.registrations, catchAlls]
    simp only [Edit.others, List.filter_nil, List.foldlM_nil, pure_ok_iff]
    constructor
    · rintro rfl
      exact ⟨d, rfl, hnil, register_nil.symm⟩
    · rintro ⟨bare, rfl, -, rfl⟩
      exact register_nil.symm
  | cons e es ih =>
    simp only [List.foldlM_cons, bind_ok_iff, ih]
    rcases he : e.callback? with _ | ⟨key, callback⟩
    · have hothers : Edit.others (e :: es) = e :: Edit.others es :=
        List.filter_cons_of_pos (by rw [he]; rfl)
      have hregs : Edit.registrations (e :: es) = Edit.registrations es :=
        List.filterMap_cons_none he
      have hfallback : ∀ {next}, e.apply d = .ok next →
          next.callbackFallback = d.callbackFallback := fun {next} h => by
        have hone : (Edit.others [e]).foldlM Edit.apply d = .ok next := by
          simpa [Edit.others, he] using h
        exact (keeps_of_others hone).2
      rw [hothers, hregs]
      simp only [List.foldlM_cons, bind_ok_iff]
      constructor
      · rintro ⟨next, hnext, bare, hbare, hadmitted, rfl⟩
        exact ⟨bare, ⟨next, hnext, hbare⟩, hfallback hnext ▸ hadmitted, rfl⟩
      · rintro ⟨bare, ⟨next, hnext, hbare⟩, hadmitted, rfl⟩
        exact ⟨next, hnext, bare, hbare, (hfallback hnext).symm ▸ hadmitted, rfl⟩
    · obtain rfl : e = .autocomplete key callback := by
        cases e <;> simp_all [Edit.callback?]
      have hothers : Edit.others (.autocomplete key callback :: es) = Edit.others es :=
        List.filter_cons_of_neg (by simp [Edit.callback?])
      have hregs : Edit.registrations (.autocomplete key callback :: es)
          = (key, callback) :: Edit.registrations es := rfl
      have hswap : (Edit.others es).foldlM Edit.apply (d.register [(key, callback)])
          = (·.register [(key, callback)]) <$> (Edit.others es).foldlM Edit.apply d :=
        overlooks_others (g := registering [(key, callback)]) rfl es d
      rw [hothers, hregs, admitted_cons_iff]
      simp only [Edit.apply, setCallback_eq_register]
      constructor
      · rintro ⟨next, ⟨hfirst, rfl⟩, named, hnamed, hrest, rfl⟩
        rw [hswap, fmap_ok_iff] at hnamed
        obtain ⟨bare, hbare, rfl⟩ := hnamed
        exact ⟨bare, hbare, ⟨hfirst, hrest⟩, (register_cons _ _).symm⟩
      · rintro ⟨bare, hbare, ⟨hfirst, hrest⟩, rfl⟩
        refine ⟨_, ⟨hfirst, rfl⟩, bare.register [(key, callback)], ?_, hrest,
          register_cons _ _⟩
        rw [hswap, hbare]
        rfl

/-! ### Sealing -/

theorem overlooks_applyDoc {g : Recollection κ} (doc : Doc) :
    Overlooks g fun d => d.applyDoc doc := by
  intro d
  simp only [applyDoc, map_bind]
  rw [recollect_tree]
  refine bind_congr fun target => bind_congr fun parts => ?_
  cases target with
  | command => rfl
  | subgroup | subcommand | argument =>
    simp only [map_bind, map_pure]
    rfl

theorem overlooks_applyDocs {g : Recollection κ} (h : g.docs = id) :
    Overlooks g fun d => d.applyDocs := by
  obtain ⟨docs, callbacks, fallback⟩ := g
  obtain rfl : docs = id := h
  intro d
  have hfold : Overlooks ⟨id, callbacks, fallback⟩ fun e => d.docs.foldlM applyDoc e :=
    .foldlM fun doc _ => overlooks_applyDoc doc
  exact hfold { d with docs := [] }

theorem prepare_register_iff (hc : bare.callbacks = []) :
    (bare.register regs).prepare = .ok (documented, stored) ↔
      ∃ plain, bare.prepare = .ok (plain, []) ∧ Filed plain.tree (keyed regs) stored
        ∧ documented = plain.register regs := by
  have hdocs : (bare.register regs).applyDocs = (·.register regs) <$> bare.applyDocs :=
    overlooks_applyDocs (g := registering regs) rfl bare
  have hkeeps : ∀ {plain}, bare.applyDocs = .ok plain → plain.callbacks = [] := fun h =>
    (Overlooks.keeps (fun _ hg => overlooks_applyDocs hg) h).1.trans hc
  simp only [prepare_ok_iff, hdocs, fmap_ok_iff, resolveCallbacks_ok_iff]
  constructor
  · rintro ⟨⟨plain, hplain, rfl⟩, hdesc, hstructure, hchecks, hfiled⟩
    have hnone := hkeeps hplain
    refine ⟨plain, ⟨hplain, hdesc, hstructure, hchecks, ?_⟩, ?_, rfl⟩
    · rw [hnone]
      exact ⟨.nil, List.nodup_nil⟩
    · simpa [register, hnone] using hfiled
  · rintro ⟨plain, ⟨hplain, hdesc, hstructure, hchecks, -⟩, hfiled, rfl⟩
    refine ⟨⟨plain, hplain, rfl⟩, hdesc, hstructure, hchecks, ?_⟩
    simpa [register, hkeeps hplain] using hfiled

theorem keeps_of_prepare (h : d.prepare = .ok (documented, stored)) :
    documented.callbackFallback = d.callbackFallback :=
  (Overlooks.keeps (fun _ hg => overlooks_applyDocs hg) (prepare_ok_iff.1 h).1).2

theorem finish_register_iff (hc : bare.callbacks = []) (hf : bare.callbackFallback = none)
    {terminal : Terminal η} {s : Spec η κ} :
    ((bare.register regs).finish terminal).2 = .ok s ↔
      ∃ plain stored, (bare.finish terminal).2 = .ok plain ∧ Filed plain.tree (keyed regs) stored
        ∧ s = { plain with callbacks := stored, callbackFallback := (catchAlls regs).head? } := by
  have hsealed : ∀ {plain : Draft κ} {stored : List (Slot × κ)} {handler : Handler η},
      bare.prepare = .ok (plain, []) → (plain.register regs).toSpec stored handler
        = { plain.toSpec [] handler with
            callbacks := stored, callbackFallback := (catchAlls regs).head? } := by
    intro plain stored handler hp
    have hnone := (keeps_of_prepare hp).trans hf
    simp [toSpec, register, hnone]
  simp only [finish_ok_iff, prepare_register_iff hc]
  constructor
  · rintro ⟨_, stored, handler, ⟨plain, hp, hfiled, rfl⟩, hh, rfl⟩
    exact ⟨plain.toSpec [] handler, stored, ⟨plain, [], handler, hp, hh, rfl⟩, hfiled, hsealed hp⟩
  · rintro ⟨_, stored, ⟨plain, first, handler, hp, hh, rfl⟩, hfiled, rfl⟩
    obtain rfl : first = [] := by
      have hfirst := resolveCallbacks_ok_iff.1 (prepare_ok_iff.1 hp).2.2.2.2
      have hkeeps := Overlooks.keeps (fun _ hg => overlooks_applyDocs hg) (prepare_ok_iff.1 hp).1
      rw [hkeeps.1, hc] at hfirst
      exact List.forall₂_nil_left_iff.1 hfirst.each
    exact ⟨_, stored, handler, ⟨plain, hp, hfiled, rfl⟩, hh, (hsealed hp).symm⟩

/-- What is warned of when a command is sealed. -/
theorem finish_fst {terminal : Terminal η} {s : Spec η κ} (h : (d.finish terminal).2 = .ok s) :
    (d.finish terminal).1 = if s.callbackFallback.isSome then []
      else (s.tree.starred.filter fun slot => !s.callbacks.any fun c => c.1 == slot).map (·.2) := by
  obtain ⟨documented, callbacks, handler, hp, hh, rfl⟩ := finish_ok_iff.1 h
  rw [finish, hp]
  exact missingCallbacks_eq documented callbacks

end Draft

/-! ## From the calls to the sealed command -/

/-- What sealing makes of registrations: the names that it warns of, and the sealed command. -/
structure Settled (regs : List (String × κ)) (warned : List String) (s : Spec η κ) : Prop where
  /-- Callbacks are stored for declared arguments with a star. -/
  starred : ∀ c ∈ s.callbacks, ∃ as a, s.tree.arguments? c.1.1 = some as ∧ a ∈ as
    ∧ a.name = c.1.2 ∧ a.autocomplete = true
  distinct : (s.callbacks.map (·.1)).Nodup
  /-- Every callback with a key is stored for the argument that the key resolves to. -/
  stored : List.Forall₂
    (fun r c => Reference.resolve s.tree r.1 = .ok (.argument c.1.1 c.1.2) ∧ r.2 = c.2)
    (keyed regs) s.callbacks
  /-- The callback whose key resolves to an argument is found for it, -/
  found : ∀ r ∈ keyed regs, ∀ p name, Reference.resolve s.tree r.1 = .ok (.argument p name) →
    s.callbackFor p name = some r.2
  /-- and where there is none, the one for all others, if there is one. -/
  rest : ∀ p name, (∀ r ∈ keyed regs, Reference.resolve s.tree r.1 ≠ .ok (.argument p name)) →
    s.callbackFor p name = (catchAlls regs).head?
  single : (catchAlls regs).length ≤ 1
  /-- Without one for all others, the starred arguments that no key resolves to are warned of, -/
  warned : warned = if (catchAlls regs).isEmpty then
      (s.tree.starred.filter fun slot => (keyed regs).all fun r =>
        decide (Reference.resolve s.tree r.1 ≠ .ok (.argument slot.1 slot.2))).map (·.2)
    else []
  /-- all of them, and each once. -/
  slots : ∀ slot, slot ∈ s.tree.starred ↔ ∃ as a, s.tree.arguments? slot.1 = some as ∧ a ∈ as
    ∧ a.name = slot.2 ∧ a.autocomplete = true
  slots_distinct : s.tree.starred.Nodup

namespace Builder

variable {name description : String} {es es' : List (Edit κ)} {terminal : Draft.Terminal η}
  {s : Spec η κ}

/-- A chain is sealed if the name is legal, no call meets a fault and sealing meets none. -/
theorem finish_chain_ok_iff :
    (((new name description).edits es).finish terminal).2 = .ok s ↔
      ∃ d, (Check.slashName name "command" = .ok ()
          ∧ es.foldlM Edit.apply (.new name description) = .ok d)
        ∧ (d.finish terminal).2 = .ok s := by
  rw [finish_ok_iff]
  constructor
  · rintro ⟨hfault, hs⟩
    have ho := outcome_eq_ok_iff.2 ⟨hfault, rfl⟩
    rw [outcome_chain] at ho
    obtain ⟨u, hn, hd⟩ := bind_ok_iff.1 ho
    exact ⟨_, ⟨hn, hd⟩, hs⟩
  · rintro ⟨d, ⟨hn, hd⟩, hs⟩
    have ho : ((new name description).edits es).outcome = .ok d := by
      rw [outcome_chain, hn]
      exact hd
    obtain ⟨hfault, rfl⟩ := outcome_eq_ok_iff.1 ho
    exact ⟨hfault, hs⟩

/-- A sealed command is the one without callbacks with these callbacks. -/
theorem seals_iff :
    (((new name description).edits es).finish terminal).2 = .ok s ↔
      ∃ plain stored,
        (((new name description).edits (Edit.others es)).finish terminal).2 = .ok plain
          ∧ Admitted none (Edit.registrations es)
          ∧ Draft.Filed plain.tree (keyed (Edit.registrations es)) stored
          ∧ s = { plain with
              callbacks := stored
              callbackFallback := (catchAlls (Edit.registrations es)).head? } := by
  simp only [finish_chain_ok_iff, Draft.foldlM_apply_ok_iff es]
  constructor
  · rintro ⟨_, ⟨hn, bare, hbare, hadmitted, rfl⟩, hs⟩
    obtain ⟨hc, hf⟩ := Draft.keeps_of_others hbare
    obtain ⟨plain, stored, hplain, hfiled, rfl⟩ := (Draft.finish_register_iff hc hf).1 hs
    exact ⟨plain, stored, ⟨bare, ⟨hn, hbare⟩, hplain⟩, hadmitted, hfiled, rfl⟩
  · rintro ⟨plain, stored, ⟨bare, ⟨hn, hbare⟩, hplain⟩, hadmitted, hfiled, rfl⟩
    obtain ⟨hc, hf⟩ := Draft.keeps_of_others hbare
    exact ⟨_, ⟨hn, bare, hbare, hadmitted, rfl⟩,
      (Draft.finish_register_iff hc hf).2 ⟨plain, stored, hplain, hfiled, rfl⟩⟩

/-- What is warned of when the calls are sealed. -/
theorem finish_fst (h : (((new name description).edits es).finish terminal).2 = .ok s) :
    (((new name description).edits es).finish terminal).1 = if s.callbackFallback.isSome then []
      else (s.tree.starred.filter fun slot => !s.callbacks.any fun c => c.1 == slot).map (·.2) := by
  have hfault := (finish_ok_iff.1 h).1
  rw [finish, hfault] at h ⊢
  exact Draft.finish_fst h

/-- What is found for an argument: the callback whose key resolves to it, or the one for all. -/
theorem callbackFor_of_filed {regs : List (String × κ)}
    (hfiled : Draft.Filed s.tree (keyed regs) s.callbacks) (p : Path) (argument : String) :
    (∀ r ∈ keyed regs, Reference.resolve s.tree r.1 = .ok (.argument p argument) →
        s.callbackFor p argument = some r.2)
      ∧ ((∀ r ∈ keyed regs, Reference.resolve s.tree r.1 ≠ .ok (.argument p argument)) →
        s.callbackFor p argument = s.callbackFallback) := by
  constructor
  · intro r hr hres
    have hfound : (s.callbacks.find? fun c => c.1 == (p, argument)).map (·.2) = some r.2 :=
      hfiled.find?_eq_some_iff.2 ⟨r.1, hr, (hfiled.slot?_iff hr).2 hres⟩
    rw [Spec.callbackFor, hfound]
    rfl
  · intro hnone
    have hfound : (s.callbacks.find? fun c => c.1 == (p, argument)).map (·.2) = none := by
      rw [Option.eq_none_iff_forall_ne_some]
      intro callback hsome
      obtain ⟨key, hr, hs⟩ := hfiled.find?_eq_some_iff.1 hsome
      exact hnone (key, callback) hr ((hfiled.slot?_iff hr).1 hs)
    rw [Spec.callbackFor, hfound]
    rfl

/-- An argument with a star has no callback if no key resolves to it. -/
theorem any_stored_iff {regs : List (String × κ)}
    (hfiled : Draft.Filed s.tree (keyed regs) s.callbacks) (slot : Slot) :
    (!s.callbacks.any fun c => c.1 == slot) = (keyed regs).all fun r =>
      decide (Reference.resolve s.tree r.1 ≠ .ok (.argument slot.1 slot.2)) := by
  rw [Bool.eq_iff_iff, Bool.not_eq_true', ← Bool.not_eq_true, List.any_eq_true, List.all_eq_true]
  simp only [beq_iff_eq, decide_eq_true_eq]
  constructor
  · intro hnone r hr hres
    exact hnone ⟨(slot, r.2), hfiled.mem_iff.2 ⟨r.1, hr, (hfiled.slot?_iff hr).2 hres⟩, rfl⟩
  · rintro hall ⟨⟨_, callback⟩, hc, rfl⟩
    obtain ⟨key, hr, hs⟩ := hfiled.mem_iff.1 hc
    exact hall (key, callback) hr ((hfiled.slot?_iff hr).1 hs)

theorem settled_of_seals (h : (((new name description).edits es).finish terminal).2 = .ok s) :
    Settled (Edit.registrations es) (((new name description).edits es).finish terminal).1 s := by
  have hsound := sealed_sound h
  have hwarned := finish_fst h
  obtain ⟨plain, stored, -, hadmitted, hfiled, hs⟩ := seals_iff.1 h
  have hlast : s.callbackFallback = (catchAlls (Edit.registrations es)).head? := by rw [hs]
  have hfiled' : Draft.Filed s.tree (keyed (Edit.registrations es)) s.callbacks := by
    rw [hs]
    exact hfiled
  exact
    { starred := hsound.callbacks.starred
      distinct := hsound.callbacks.distinct
      stored := hfiled'.each.imp fun r c hrc => ⟨(Draft.slot?_eq_some_iff.1 hrc.1).1, hrc.2⟩
      found := fun r hr p argument => (callbackFor_of_filed hfiled' p argument).1 r hr
      rest := fun p argument hnone =>
        ((callbackFor_of_filed hfiled' p argument).2 hnone).trans hlast
      single := hadmitted.single
      warned := by
        rw [hwarned, hlast, funext (any_stored_iff hfiled')]
        rcases catchAlls (Edit.registrations es) with _ | ⟨c, cs⟩ <;> rfl
      slots := fun slot => hsound.tree.mem_starred_iff.trans hsound.tree.isStarred_iff
      slots_distinct := hsound.tree.nodup_starred }

/-- The command is sealed exactly if the one without callbacks is, and each key resolves to an
argument of it that has a star and that no other key resolves to. -/
theorem seals_iff_of_others :
    (∃ s : Spec η κ, (((new name description).edits es).finish terminal).2 = .ok s) ↔
      ∃ plain : Spec η κ,
        (((new name description).edits (Edit.others es)).finish terminal).2 = .ok plain
          ∧ Admitted none (Edit.registrations es)
          ∧ (∀ r ∈ keyed (Edit.registrations es), ∃ p argument,
            Reference.resolve plain.tree r.1 = .ok (.argument p argument)
              ∧ Draft.isStarred plain.tree (p, argument) = true)
          ∧ ((keyed (Edit.registrations es)).map fun r =>
            Reference.resolve plain.tree r.1).Nodup := by
  constructor
  · rintro ⟨s, hs⟩
    obtain ⟨plain, stored, hplain, hadmitted, hfiled, -⟩ := seals_iff.1 hs
    exact ⟨plain, hplain, hadmitted, Draft.Filed.exists_iff_resolve.1 ⟨stored, hfiled⟩⟩
  · rintro ⟨plain, hplain, hadmitted, hkeys⟩
    obtain ⟨stored, hfiled⟩ := Draft.Filed.exists_iff_resolve.2 hkeys
    exact ⟨_, seals_iff.2 ⟨plain, stored, hplain, hadmitted, hfiled, rfl⟩⟩

/-- The calls that register callbacks, in another order and at other places among the other calls:
the command is sealed or not as before, and finds the same callbacks. -/
theorem seals_perm (hothers : Edit.others es' = Edit.others es)
    (hperm : (Edit.registrations es').Perm (Edit.registrations es))
    (h : (((new name description).edits es).finish terminal).2 = .ok s) :
    ∃ s' : Spec η κ, (((new name description).edits es').finish terminal).2 = .ok s'
      ∧ s' = { s with callbacks := s'.callbacks } ∧ s'.callbacks.Perm s.callbacks
      ∧ (∀ p argument, s'.callbackFor p argument = s.callbackFor p argument)
      ∧ (((new name description).edits es').finish terminal).1
        = (((new name description).edits es).finish terminal).1 := by
  obtain ⟨plain, stored, hplain, hadmitted, hfiled, rfl⟩ := seals_iff.1 h
  have hkeyed : (keyed (Edit.registrations es')).Perm (keyed (Edit.registrations es)) :=
    hperm.filter _
  obtain ⟨stored', hfiled', hstored⟩ := hfiled.perm hkeyed
  have hlast := hadmitted.catchAlls_perm hperm
  have h' := seals_iff.2 ⟨plain, stored', hothers ▸ hplain, hadmitted.perm hperm, hfiled', rfl⟩
  refine ⟨_, h', by rw [hlast], hstored, fun p argument => ?_, ?_⟩
  · have hfind : (stored'.find? fun c => c.1 == (p, argument)).map (·.2)
        = (stored.find? fun c => c.1 == (p, argument)).map (·.2) := by
      refine Option.ext fun callback => ?_
      rw [hfiled'.find?_eq_some_iff, hfiled.find?_eq_some_iff]
      simp only [hkeyed.mem_iff]
    simp only [Spec.callbackFor, hfind, hlast]
  · have hany : ∀ slot : Slot, (stored'.any fun c => c.1 == slot)
        = stored.any fun c => c.1 == slot := fun slot => hstored.any_eq
    rw [finish_fst h', finish_fst h]
    simp only [hany, hlast]

/-- Callbacks of whatever chain of calls. If it is sealed, they are stored for the starred arguments
that their keys resolve to, found there, and reported missing elsewhere. Their order and place among
the other calls makes no difference, neither to whether it is sealed nor to what is found. And it is
sealed exactly if it would be without them, no key is blank, at most one callback is for all
arguments, and the other keys resolve to starred arguments, no two to the same. -/
theorem callbacks_settled (name description : String) (es : List (Edit κ))
    (terminal : Draft.Terminal η) :
    (∀ s, (((new name description).edits es).finish terminal).2 = .ok s →
        Settled (Edit.registrations es) (((new name description).edits es).finish terminal).1 s)
      ∧ (∀ es', Edit.others es' = Edit.others es →
        (Edit.registrations es').Perm (Edit.registrations es) →
          ((∃ s : Spec η κ, (((new name description).edits es').finish terminal).2 = .ok s)
            ↔ ∃ s : Spec η κ, (((new name description).edits es).finish terminal).2 = .ok s)
          ∧ ∀ s, (((new name description).edits es).finish terminal).2 = .ok s →
            ∃ s' : Spec η κ, (((new name description).edits es').finish terminal).2 = .ok s'
              ∧ s' = { s with callbacks := s'.callbacks } ∧ s'.callbacks.Perm s.callbacks
              ∧ (∀ p argument, s'.callbackFor p argument = s.callbackFor p argument)
              ∧ (((new name description).edits es').finish terminal).1
                = (((new name description).edits es).finish terminal).1)
      ∧ ((∃ s : Spec η κ, (((new name description).edits es).finish terminal).2 = .ok s) ↔
        ∃ plain : Spec η κ,
          (((new name description).edits (Edit.others es)).finish terminal).2 = .ok plain
            ∧ Admitted none (Edit.registrations es)
            ∧ (∀ r ∈ keyed (Edit.registrations es), ∃ p argument,
              Reference.resolve plain.tree r.1 = .ok (.argument p argument)
                ∧ Draft.isStarred plain.tree (p, argument) = true)
            ∧ ((keyed (Edit.registrations es)).map fun r =>
              Reference.resolve plain.tree r.1).Nodup) := by
  refine ⟨fun s => settled_of_seals, fun es' hothers hperm => ⟨⟨?_, ?_⟩, fun s h => ?_⟩,
    seals_iff_of_others⟩
  · rintro ⟨s', h'⟩
    obtain ⟨s, h, -⟩ := seals_perm hothers.symm hperm.symm h'
    exact ⟨s, h⟩
  · rintro ⟨s, h⟩
    obtain ⟨s', h', -⟩ := seals_perm hothers hperm h
    exact ⟨s', h'⟩
  · exact seals_perm hothers hperm h

/-- Two callbacks under keys that are spelled differently, and an argument without one. -/
def rosterEdits : List (Edit Nat) :=
  [.autocomplete "role add <name: any>" 1, .argument "role add <*name: string> <*note: string>",
    .argument "role drop <*name: string>", .autocomplete " role drop [name: string] " 2]

/-- The same calls with the callbacks at the end, the other way around. -/
def rosterEditsLate : List (Edit Nat) :=
  [.argument "role add <*name: string> <*note: string>", .argument "role drop <*name: string>",
    .autocomplete " role drop [name: string] " 2, .autocomplete "role add <name: any>" 1]

theorem rosterEdits_callbacks_settled :
    ∃ s s' : Spec Unit Nat,
      (((new "manage" "Manages").edits rosterEdits).finish (.action ())).2 = .ok s
        ∧ (((new "manage" "Manages").edits rosterEditsLate).finish (.action ())).2 = .ok s'
        ∧ Settled (Edit.registrations rosterEdits) ["note"] s
        ∧ s'.callbackFor (.nested "role" "drop") "name" = some 2
        ∧ s.callbackFor (.nested "role" "drop") "name" = some 2 := by
  have hran : (((new "manage" "Manages").edits rosterEdits).finish
      (.action () : Draft.Terminal Unit)).map id (fun sealed => sealed.toOption.bind fun s =>
        s.callbackFor (.nested "role" "drop") "name") = (["note"], some 2) := by
    decide +kernel
  obtain ⟨hwarned, hok⟩ := Prod.mk.inj hran
  obtain ⟨s, hs, hfound⟩ := Option.bind_eq_some_iff.1 hok
  have h := toOption_eq_some_iff.1 hs
  obtain ⟨hsettled, hperm, -⟩ := callbacks_settled "manage" "Manages" rosterEdits (.action ())
  obtain ⟨-, hsame⟩ := hperm rosterEditsLate rfl (List.Perm.swap _ _ _)
  obtain ⟨s', h', -, -, hlookup, -⟩ := hsame s h
  exact ⟨s, s', h, h', hwarned ▸ hsettled s h, (hlookup _ _).trans hfound, hfound⟩

end Builder

end SlashCommands
