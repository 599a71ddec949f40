import SlashCommands.Proofs.CallbackSlots
import SlashCommands.Proofs.DocumentedCommand
import SlashCommands.Proofs.EditLookups
import SlashCommands.Proofs.RouteSeats

/-!
# What sealing fails for

Sealing looks at the tree once more, at each argument and at each list of them. The edits have made
sure of all that, and the documentation changes no more than words (`Tree.Sound.rechecked`). What
can be wrong is what no edit looks at: the documentation entries (`Doc.Flawed`), the description of
the command, the number of its children (`Tree.Crowded`), and the keys of callbacks and routes
(`Draft.CallbackFlaw`, `Draft.RouteFlaw`). Together these are the causes for which a draft cannot be
sealed (`Draft.Unsealable`), each with its fault, and `Draft.Reachable.sealing_faults` says that
there are no others.
-/

namespace SlashCommands

open Checked

/-! ## Documentation -/

/-- What is wrong with a documentation entry: its reference leads nowhere, it has a text for a
locale that there is not, or one of its texts is too short or too long. -/
inductive Doc.Flawed (t : Tree) (doc : Doc) : Fault → Prop
  | reference (h : ∀ target, Reference.resolve t doc.1 ≠ .ok target) :
    Flawed t doc (.notFound "documentation reference" doc.1)
  | locale {locale text : String} (hm : (locale, text) ∈ doc.2.locales)
    (h : isLocale locale = false) : Flawed t doc (.notFound "locale" locale)
  | default {text : String} {fault : Fault} (hm : doc.2.default? = some text)
    (h : Check.description text ("docs entry '" ++ doc.1 ++ "'") = .error fault) :
    Flawed t doc fault
  | translation {locale text : String} {fault : Fault} (hm : (locale, text) ∈ doc.2.locales)
    (h : Check.description text ("docs entry '" ++ doc.1 ++ "'" ++ " (" ++ locale ++ ")")
      = .error fault) : Flawed t doc fault

namespace Reference

variable {t : Tree} {raw : String} {fault : Fault}

theorem resolve_error_iff : resolve t raw = .error fault ↔
    (∀ target, resolve t raw ≠ .ok target)
      ∧ fault = .notFound "documentation reference" raw := by
  rw [resolve]
  split_ifs
  · simp
  · split
    · simp
    · simp [eq_comm]

end Reference

namespace DocEntry

variable {t : Tree} {key : String} {entry : DocEntry} {fault : Fault}

/-- First the default text is looked at, if there is one, and then the others in their order. -/
theorem split_localized (key : String) (texts : SortedMap String String) :
    split key (.localized texts)
      = ((texts.find? defaultKey).elim (.ok ()) fun text =>
          Check.description text ("docs entry '" ++ key ++ "'")) >>= fun _ =>
        ((texts.erase defaultKey).entries.forM fun (locale, text) => do
          Check.known (isLocale locale) "locale" locale
          Check.description text
            ("docs entry '" ++ key ++ "'" ++ " (" ++ locale ++ ")")) >>= fun _ =>
        pure (texts.find? defaultKey, (texts.erase defaultKey).entries) := by
  rw [split]
  rcases texts.find? defaultKey <;> rfl

theorem flawed_of_split (h : entry.split key = .error fault) :
    Doc.Flawed t (key, entry) fault := by
  cases entry with
  | plain text =>
    rcases bind_error_iff.1 h with h | ⟨-, -, h⟩
    · exact .default rfl h
    · cases h
  | localized texts =>
    rw [split_localized] at h
    rcases bind_error_iff.1 h with h | ⟨-, -, h⟩
    · rcases hd : texts.find? defaultKey with _ | text
      · rw [hd] at h
        cases h
      · rw [hd] at h
        exact .default hd h
    rcases bind_error_iff.1 h with h | ⟨-, -, h⟩
    · obtain ⟨⟨locale, text⟩, hm, h⟩ := exists_of_forM_error h
      rcases bind_error_iff.1 h with h | ⟨-, -, h⟩
      · obtain ⟨hlocale, rfl⟩ := Check.known_error_iff.1 h
        exact .locale hm hlocale
      · exact .translation hm h
    · cases h

end DocEntry

namespace Doc.Flawed

variable {t t' : Tree} {doc : Doc} {fault : Fault}

/-- Only what the reference resolves to depends on the tree. -/
theorem congr (hr : ∀ raw, Reference.resolve t' raw = Reference.resolve t raw)
    (h : doc.Flawed t' fault) : doc.Flawed t fault := by
  cases h with
  | reference h => exact .reference (hr doc.1 ▸ h)
  | locale hm h => exact .locale hm h
  | default hm h => exact .default hm h
  | translation hm h => exact .translation hm h

/-- A flaw is one of the reference or one of the texts. -/
theorem not_ok (h : doc.Flawed t fault) :
    (∀ target, Reference.resolve t doc.1 ≠ .ok target)
      ∨ ∀ parts, doc.2.split doc.1 ≠ .ok parts := by
  rcases doc with ⟨key, entry⟩
  refine or_iff_not_imp_left.2 fun hr parts hs => ?_
  have hsound := DocEntry.split_sound hs
  obtain rfl := DocEntry.split_eq_of_ok hs
  cases h with
  | reference h => exact hr h
  | locale hm h => exact absurd ((hsound.translated _ hm).1.symm.trans h) (by simp)
  | default hm h => exact Check.not_described_of_error h (hsound.described _ hm)
  | translation hm h => exact Check.not_described_of_error h (hsound.translated _ hm).2

end Doc.Flawed

namespace Draft

variable {κ : Type} {d documented : Draft κ} {fault : Fault}

/-- What an entry points at is found, so nothing else can be wrong with it. -/
theorem Sound.flawed_of_applyDoc (h : d.Sound) {doc : Doc} (hd : d.applyDoc doc = .error fault) :
    doc.Flawed d.tree fault := by
  rcases doc with ⟨key, entry⟩
  rcases hr : Reference.resolve d.tree key with found | target
  · rw [Draft.applyDoc, hr] at hd
    cases hd
    obtain ⟨hnone, rfl⟩ := Reference.resolve_error_iff.1 hr
    exact .reference hnone
  · rcases hs : entry.split key with found | parts
    · rcases bind_error_iff.1 hd with hd | ⟨_, -, hd⟩
      · rw [hr] at hd
        cases hd
      rw [hs] at hd
      cases hd
      exact DocEntry.flawed_of_split hs
    · obtain ⟨d', hd'⟩ := h.exists_applyDoc hr hs
      rw [hd'] at hd
      cases hd

/-- The entries before a flawed one change no more than the words, so it was flawed from the
beginning. -/
theorem Sound.flawed_of_applyDocs (h : d.Sound) (hd : d.applyDocs = .error fault) :
    ∃ doc ∈ d.docs, doc.Flawed d.tree fault := by
  obtain ⟨before, doc, after, c, hdocs, hc, he⟩ := foldlM_error_iff.1 hd
  have htaken : ({ d with docs := [] } : Draft κ).Sound := { h with }
  have hsound : c.Sound := foldlM_keeps Sound (fun _ _ _ _ hb he => hb.applyDoc he) htaken hc
  obtain ⟨-, rfl⟩ := Sound.applyDocs_eq htaken hc
  exact ⟨doc, by rw [hdocs]; simp,
    (hsound.flawed_of_applyDoc he).congr (Tree.resolve_reworded h.tree hsound.tree)⟩

theorem Sound.not_flawed_of_applyDocs (h : d.Sound) (hd : d.applyDocs = .ok documented) :
    ∀ doc ∈ d.docs, ¬ doc.Flawed d.tree fault := by
  intro doc hm hflawed
  obtain ⟨target, ht⟩ := (h.applyDocs_reworded hd).1 doc hm
  obtain ⟨b, c, hbc⟩ := exists_ok_of_foldlM_ok hd doc hm
  simp only [Draft.applyDoc, bind_ok_iff] at hbc
  obtain ⟨-, -, parts, hs, -⟩ := hbc
  rcases hflawed.not_ok with hn | hn
  · exact hn target ht
  · exact hn parts hs

end Draft

/-! ## Structure -/

/-- What is looked at once more when a command is sealed, and is in order. -/
structure Tree.Rechecked (t : Tree) : Prop where
  apart : ∀ text, Check.rule (!t.arguments.isEmpty && !t.children.isEmpty) text = .ok ()
  /-- Neither are there too many arguments, nor does a required one follow an optional one. -/
  nodes : ∀ node ∈ t.nodes, Tree.checkNode node = .ok ()
  arguments : ∀ node ∈ t.nodes, ∀ a ∈ node.2, a.check = .ok ()

theorem SoundArguments.checkOrder {as : List Argument} (h : SoundArguments as) :
    Tree.checkOrder as = .ok () := by
  rw [Tree.checkOrder]
  split
  · rfl
  · rename_i first rest hdrop
    have hsub : (first :: rest).Sublist as := hdrop ▸ List.dropWhile_sublist _
    have hfirst : first.required = false := by
      have hhead := List.head?_dropWhile_not (fun a : Argument => a.required) as
      rw [hdrop] at hhead
      simpa using hhead
    have hrest : rest.find? (·.required) = none := by
      refine List.find?_eq_none.2 fun late hlate hr => ?_
      have := List.rel_of_pairwise_cons (h.ordered.sublist hsub) hlate hr
      rw [hfirst] at this
      cases this
    rw [hrest]

namespace Tree.Sound

variable {t : Tree}

theorem rechecked (h : t.Sound) : t.Rechecked where
  apart text := by
    rw [Check.rule_ok_iff]
    rcases h.apart with ha | ha <;> simp [ha]
  nodes node hn := by
    have hargs := h.soundArguments hn
    rw [checkNode, bind_ok_iff, exists_unit_ok_iff, Check.count_ok_iff]
    exact ⟨⟨Nat.zero_le _, hargs.few⟩, hargs.checkOrder⟩
  arguments node hn a ha := ((h.soundArguments hn).each a ha).passes

end Tree.Sound

/-- What is wrong with the numbers of children. -/
inductive Tree.Crowded (t : Tree) : Fault → Prop
  | children (h : 25 < t.children.length) : Crowded t
    (.aboveMaximum "subcommand and subgroup count" (.ofNat t.children.length) (.ofNat 25))
  | subcommands {g : Subgroup} (hm : .subgroup g ∈ t.children) (h : 25 < g.subcommands.length) :
    Crowded t (.aboveMaximum ("subcommand count of '" ++ g.name ++ "'")
      (.ofNat g.subcommands.length) (.ofNat 25))

namespace Tree

variable {t : Tree} {fault : Fault}

theorem Sound.crowded_of_checkStructure (h : t.Sound) (hs : t.checkStructure = .error fault) :
    t.Crowded fault := by
  have hrechecked := h.rechecked
  rcases bind_error_iff.1 hs with hs | ⟨-, -, hs⟩
  · rw [hrechecked.apart] at hs
    cases hs
  rcases bind_error_iff.1 hs with hs | ⟨-, -, hs⟩
  · obtain ⟨hlong, rfl⟩ := Check.count_error_iff.1 hs
    exact .children hlong
  rcases bind_error_iff.1 hs with hs | ⟨-, -, hs⟩
  · obtain ⟨c, hc, hs⟩ := exists_of_forM_error hs
    cases c with
    | subcommand s => cases hs
    | subgroup g =>
      obtain ⟨hlong, rfl⟩ := Check.count_error_iff.1 hs
      exact .subcommands hc hlong
  · obtain ⟨node, hn, hs⟩ := exists_of_forM_error hs
    rw [hrechecked.nodes node hn] at hs
    cases hs

theorem Crowded.checkStructure_ne_ok (h : t.Crowded fault) : t.checkStructure ≠ .ok () := by
  intro hs
  obtain ⟨hchildren, hgroups⟩ := checkStructure_ok hs
  cases h with
  | children h => omega
  | subcommands hm h =>
    have := hgroups _ hm
    omega

/-- Words are not counted. -/
theorem crowded_reworded {w : Target → Wording} :
    (t.reworded w).Crowded fault ↔ t.Crowded fault := by
  have hchildren : (t.reworded w).children.length = t.children.length := List.length_map _
  have hsubcommands : ∀ g : Subgroup,
      (g.reworded w).subcommands.length = g.subcommands.length := fun _ => List.length_map _
  have hname : ∀ g : Subgroup, (g.reworded w).name = g.name := fun _ => rfl
  constructor
  · rintro (h | ⟨hm, h⟩)
    · rw [hchildren] at h ⊢
      exact .children h
    · obtain ⟨c, hc, he⟩ := List.mem_map.1 hm
      cases c with
      | subcommand s => cases he
      | subgroup g =>
        obtain rfl := Child.subgroup.inj he
        rw [hsubcommands] at h
        rw [hsubcommands, hname]
        exact .subcommands hc h
  · rintro (h | @⟨g, hm, h⟩)
    · rw [← hchildren] at h
      rw [← hchildren]
      exact .children h
    · rw [← hsubcommands] at h
      rw [← hsubcommands, ← hname]
      exact .subcommands (List.mem_map_of_mem hm) h

end Tree

/-! ## Keys -/

/-- An entry takes a place that one before it has taken. -/
def Repeats {α β : Type} (place : String → Option α) (entries : List (String × β))
    (key : String) : Prop :=
  ∃ before e after, entries = before ++ e :: after ∧ e.1 = key
    ∧ ∃ f ∈ before, place f.1 = place key ∧ (place key).isSome = true

theorem Repeats.not_nodup {α β : Type} {place : String → Option α} {entries : List (String × β)}
    {key : String} (h : Repeats place entries key) :
    ¬ (entries.map fun e => place e.1).Nodup := by
  obtain ⟨before, e, after, rfl, rfl, f, hf, he, -⟩ := h
  rw [List.map_append, List.map_cons, List.nodup_append]
  rintro ⟨-, -, hd⟩
  exact hd _ (List.mem_map_of_mem hf) _ List.mem_cons_self he

namespace Draft

variable {κ η : Type} {t : Tree} {fault : Fault}

/-- What is wrong with the keys of callbacks: one names no starred argument, or two the same. -/
inductive CallbackFlaw (t : Tree) (entries : List (String × κ)) : Fault → Prop
  | reference {e : String × κ} (hm : e ∈ entries)
    (h : ∀ target, Reference.resolve t e.1 ≠ .ok target) :
    CallbackFlaw t entries (.notFound "documentation reference" e.1)
  | elsewhere {e : String × κ} {target : Target} (hm : e ∈ entries)
    (h : Reference.resolve t e.1 = .ok target) (hne : ∀ path name, target ≠ .argument path name) :
    CallbackFlaw t entries (.rule ("autocomplete key '" ++ e.1 ++ "' must name an argument"))
  | unstarred {e : String × κ} {path : Path} {name : String} (hm : e ∈ entries)
    (h : Reference.resolve t e.1 = .ok (.argument path name))
    (hs : isStarred t (path, name) = false) :
    CallbackFlaw t entries (.rule ("argument '" ++ e.1
      ++ "' must be declared with '*' to take an autocomplete callback"))
  | taken {key : String} (h : Repeats (slot? t) entries key) :
    CallbackFlaw t entries (.duplicate "autocomplete callback" key)

/-- What is wrong with the keys of routes: one leads nowhere, or two to the same handler. -/
inductive RouteFlaw (t : Tree) (routes : List (String × η)) : Fault → Prop
  | unknown {e : String × η} (hm : e ∈ routes) (h : seat? t e.1 = none) :
    RouteFlaw t routes (.notFound "handler route" e.1)
  | taken {key : String} (h : Repeats (seat? t) routes key) :
    RouteFlaw t routes
      (.duplicate "handler route" (if Reference.isDefault key then defaultKey else key))

theorem flaw_of_foldlM_addCallback {entries : List (String × κ)}
    (h : entries.foldlM (addCallback t) [] = .error fault) : CallbackFlaw t entries fault := by
  obtain ⟨before, ⟨key, callback⟩, after, stored, rfl, hstored, he⟩ := foldlM_error_iff.1 h
  have hm : (key, callback) ∈ before ++ (key, callback) :: after := by simp
  rcases bind_error_iff.1 he with he | ⟨target, ht, he⟩
  · obtain ⟨hnone, rfl⟩ := Reference.resolve_error_iff.1 he
    exact .reference hm hnone
  rcases target with _ | group | p | ⟨path, name⟩
  · cases he
    exact .elsewhere hm ht (by simp)
  · cases he
    exact .elsewhere hm ht (by simp)
  · cases he
    exact .elsewhere hm ht (by simp)
  rcases bind_error_iff.1 he with he | ⟨_, hstar, he⟩
  · obtain ⟨hstar, rfl⟩ := Check.rule_error_iff.1 he
    exact .unstarred hm ht (by simpa using hstar)
  rcases bind_error_iff.1 he with he | ⟨-, -, he⟩
  · obtain ⟨htaken, rfl⟩ := Check.notDuplicate_error_iff.1 he
    obtain ⟨⟨slot, other⟩, hc, hslot⟩ := List.any_eq_true.1 htaken
    obtain rfl : slot = (path, name) := by simpa using hslot
    obtain ⟨other, hother, hplace⟩ := (filed_iff.1 hstored).mem_iff.1 hc
    have hkey : slot? t key = some (path, name) :=
      slot?_eq_some_iff.2 ⟨ht, by simpa using Check.rule_ok_iff.1 hstar⟩
    exact .taken ⟨before, _, after, rfl, rfl, _, hother, hplace.trans hkey.symm, by simp [hkey]⟩
  · cases he

theorem routePath_error {key : String} (h : routePath t key = .error fault) :
    fault = .notFound "handler route" key := by
  unfold routePath at h
  split at h
  · cases h
  · cases h
  · cases h
    rfl

theorem flaw_of_foldlM_addRoute {routes : List (String × η)}
    (h : routes.foldlM (addRoute t) .empty = .error fault) : RouteFlaw t routes fault := by
  obtain ⟨before, ⟨key, handler⟩, after, table, rfl, htable, he⟩ := foldlM_error_iff.1 h
  have hm : (key, handler) ∈ before ++ (key, handler) :: after := by simp
  -- Whatever sits in a seat by then, an entry before this one has put it there.
  have hrepeats : ∀ {seat : Seat}, seat? t key = some seat → (table.at? seat).isSome = true →
      Repeats (seat? t) (before ++ (key, handler) :: after) key := by
    intro seat hkey hseat
    obtain ⟨a, ha⟩ := Option.isSome_iff_exists.1 hseat
    obtain ⟨f, hf, hplace, -⟩ := (at?_of_foldlM htable).1 ha
    exact ⟨before, _, after, rfl, rfl, f, hf, hplace.trans hkey.symm, by simp [hkey]⟩
  rcases hdefault : Reference.isDefault key
  · simp only [addRoute, hdefault, Bool.false_eq_true, if_false] at he
    rcases bind_error_iff.1 he with he | ⟨p, hp, he⟩
    · have hseat : seat? t key = none := by
        simp [seat?, hdefault, he]
      rw [routePath_error he]
      exact .unknown hm hseat
    rcases bind_error_iff.1 he with he | ⟨_, hknown, he⟩
    · obtain ⟨hcontains, rfl⟩ := Check.known_error_iff.1 he
      have hseat : seat? t key = none := by
        simp [seat?, hdefault, hp, hcontains]
      exact .unknown hm hseat
    rcases bind_error_iff.1 he with he | ⟨_, -, he⟩
    · obtain ⟨htaken, rfl⟩ := Check.notDuplicate_error_iff.1 he
      have hseat := seat?_eq_path_iff.2 ⟨hdefault, hp, Check.known_ok_iff.1 hknown⟩
      have hflaw := RouteFlaw.taken (hrepeats hseat htaken)
      rwa [hdefault] at hflaw
    · cases he
  · simp only [addRoute, hdefault, if_true] at he
    rcases bind_error_iff.1 he with he | ⟨_, -, he⟩
    · obtain ⟨hsome, rfl⟩ := Check.notDuplicate_error_iff.1 he
      have hflaw := RouteFlaw.taken (hrepeats (seat?_eq_fallback_iff.2 hdefault) hsome)
      rwa [if_pos hdefault] at hflaw
    · cases he

theorem CallbackFlaw.not_filed {entries : List (String × κ)} {stored : List (Slot × κ)}
    (h : CallbackFlaw t entries fault) : ¬ Filed t entries stored := by
  intro hfiled
  obtain ⟨-, hd⟩ := Filed.exists_iff.1 ⟨stored, hfiled⟩
  have hstarred : ∀ e ∈ entries, ∃ path name, Reference.resolve t e.1 = .ok (.argument path name)
      ∧ isStarred t (path, name) = true :=
    (Filed.exists_iff_resolve.1 ⟨stored, hfiled⟩).1
  cases h with
  | reference hm h =>
    obtain ⟨path, name, hr, -⟩ := hstarred _ hm
    exact h _ hr
  | elsewhere hm h hne =>
    obtain ⟨path, name, hr, -⟩ := hstarred _ hm
    exact hne path name (Except.ok.inj (h.symm.trans hr))
  | unstarred hm h hs =>
    obtain ⟨path, name, hr, hstar⟩ := hstarred _ hm
    cases h.symm.trans hr
    exact Bool.false_ne_true (hs.symm.trans hstar)
  | taken h => exact h.not_nodup hd

theorem RouteFlaw.not_seated {routes : List (String × η)} (h : RouteFlaw t routes fault) :
    ¬ Seated t .empty routes := by
  intro hseated
  cases h with
  | unknown hm h =>
    obtain ⟨seat, hs, -⟩ := hseated.free _ hm
    rw [h] at hs
    cases hs
  | taken h => exact h.not_nodup hseated.distinct

/-! ## Sealing -/

/-- Why a draft cannot be sealed with a handler: a documentation entry, the description of the
command, the number of its children, the key of a callback or that of a route. -/
inductive Unsealable (d : Draft κ) (terminal : Terminal η) : Fault → Prop
  | doc {doc : Doc} {fault : Fault} (hm : doc ∈ d.docs) (h : doc.Flawed d.tree fault) :
    Unsealable d terminal fault
  /-- The last text that an entry gives the command counts, if there is one. -/
  | description {fault : Fault}
    (h : Check.description ((Doc.said d.tree d.docs .command).describe d.description)
      ("command '" ++ d.name ++ "'") = .error fault) : Unsealable d terminal fault
  | crowded {fault : Fault} (h : d.tree.Crowded fault) : Unsealable d terminal fault
  | callback {fault : Fault} (h : CallbackFlaw d.tree d.callbacks fault) :
    Unsealable d terminal fault
  | route {routes : List (String × η)} {fault : Fault} (ht : terminal = .actions routes)
    (h : RouteFlaw d.tree routes fault) : Unsealable d terminal fault

variable {d documented : Draft κ} {terminal : Terminal η}

theorem finish_error_iff : (d.finish terminal).2 = .error fault ↔
    d.prepare = .error fault ∨ ∃ documented callbacks,
      d.prepare = .ok (documented, callbacks)
        ∧ resolveHandler documented.tree terminal = .error fault := by
  rw [finish]
  rcases d.prepare with found | ⟨documented, callbacks⟩
  · simp
  · simp [map_error_iff]

theorem Sound.unsealable_of_prepare (h : d.Sound) (hd : d.prepare = .error fault) :
    d.Unsealable terminal fault := by
  -- One case for each thing that is looked at, in the order in which they are.
  rcases bind_error_iff.1 hd with hd | ⟨documented, happly, hd⟩
  · obtain ⟨doc, hm, hflawed⟩ := h.flawed_of_applyDocs hd
    exact .doc hm hflawed
  have hsound := h.applyDocs happly
  have hcallbacks := h.resolveCallbacks_documented happly
  obtain ⟨-, rfl⟩ := h.applyDocs_reworded happly
  rcases bind_error_iff.1 hd with hd | ⟨-, -, hd⟩
  · exact .description hd
  rcases bind_error_iff.1 hd with hd | ⟨-, -, hd⟩
  · exact .crowded (Tree.crowded_reworded.1 (hsound.tree.crowded_of_checkStructure hd))
  rcases bind_error_iff.1 hd with hd | ⟨-, -, hd⟩
  · obtain ⟨node, hn, hd⟩ := exists_of_forM_error hd
    obtain ⟨a, ha, hd⟩ := exists_of_forM_error hd
    rw [hsound.tree.rechecked.arguments node hn a ha] at hd
    cases hd
  rcases bind_error_iff.1 hd with hd | ⟨stored, -, hd⟩
  · exact .callback (flaw_of_foldlM_addCallback (hcallbacks.symm.trans hd))
  · cases hd

theorem Sound.unsealable_of_finish (h : d.Sound) (hd : (d.finish terminal).2 = .error fault) :
    d.Unsealable terminal fault := by
  rcases finish_error_iff.1 hd with hd | ⟨documented, callbacks, hp, hd⟩
  · exact h.unsealable_of_prepare hd
  rw [h.resolveHandler_documented (prepare_ok_iff.1 hp).1] at hd
  cases terminal with
  | action handler => cases hd
  | actions routes =>
    rcases bind_error_iff.1 hd with hd | ⟨table, -, hd⟩
    · exact .route rfl (flaw_of_foldlM_addRoute hd)
    · cases hd

theorem Sound.finish_ne_ok (h : d.Sound) (hd : d.Unsealable terminal fault) {s : Spec η κ} :
    (d.finish terminal).2 ≠ .ok s := by
  intro hs
  obtain ⟨documented, callbacks, handler, hp, hh, -⟩ := finish_ok_iff.1 hs
  obtain ⟨happly, hdescribed, hstructure, -, hc⟩ := prepare_ok_iff.1 hp
  rw [h.resolveCallbacks_documented happly] at hc
  rw [h.resolveHandler_documented happly] at hh
  cases hd with
  | doc hm hflawed => exact h.not_flawed_of_applyDocs happly _ hm hflawed
  | description hd =>
    obtain ⟨-, rfl⟩ := h.applyDocs_reworded happly
    exact Check.not_described_of_error hd hdescribed
  | crowded hd =>
    obtain ⟨-, rfl⟩ := h.applyDocs_reworded happly
    exact (Tree.crowded_reworded.2 hd).checkStructure_ne_ok hstructure
  | callback hd => exact hd.not_filed (resolveCallbacks_ok_iff.1 hc)
  | route ht hd =>
    obtain rfl := ht
    obtain ⟨table, htable, -⟩ := bind_ok_iff.1 hh
    exact hd.not_seated (exists_table_iff.1 ⟨table, htable⟩)

/-- A reachable draft fails to be sealed for a documentation entry, for the description of the
command, for too many children, or for the key of a callback or of a route, and whenever there is
such a cause. What its edits have made sure of is in order when it is looked at again, whatever the
documentation says, and what they and the documentation look for in the tree is found. -/
theorem Reachable.sealing_faults (h : d.Reachable) (terminal : Terminal η) :
    (∀ fault, (d.finish terminal).2 = .error fault → d.Unsealable terminal fault)
      ∧ ((∃ fault, (d.finish terminal).2 = .error fault) ↔ ∃ fault, d.Unsealable terminal fault)
      ∧ (∀ documented, d.applyDocs = .ok documented → documented.tree.Rechecked)
      ∧ (∀ doc fault, d.applyDoc doc = .error fault → doc.Flawed d.tree fault)
      ∧ ∀ (e : Edit κ) what reference, e.apply d = .error (.notFound what reference) →
        what = "locale" ∧ isLocale reference = false
          ∧ ∃ text, e = .localize reference text := by
  have hsound := h.sound
  refine ⟨fun fault => hsound.unsealable_of_finish, ⟨fun ⟨fault, hd⟩ => ?_, fun ⟨fault, hd⟩ => ?_⟩,
    fun documented hd => (hsound.applyDocs hd).tree.rechecked,
    fun doc fault => hsound.flawed_of_applyDoc, fun e what reference => Edit.locale_of_notFound⟩
  · exact ⟨fault, hsound.unsealable_of_finish hd⟩
  · rcases hs : (d.finish terminal).2 with found | s
    · exact ⟨found, rfl⟩
    · exact absurd hs (hsound.finish_ne_ok hd)

/-- The callback is for an argument without a star, and the description is empty but for what an
entry says of the command. -/
def pollEdits : List (Edit Unit) :=
  [.docs [("$default", .plain "Polls"), ("open <topic>", .plain "What it is about")],
    .argument "open <topic: string> [*tag]", .autocomplete "open <topic>" ()]

theorem pollEdits_sealing_faults :
    ∃ fault, (((Builder.new "poll" "").edits pollEdits).draft.finish (.action ())).2
        = .error fault
      ∧ ((Builder.new "poll" "").edits pollEdits).draft.Unsealable (.action ()) fault := by
  have hreachable : ((Builder.new "poll" "").edits pollEdits).draft.Reachable :=
    Builder.reachable_edits (by decide +kernel)
  have hfails : (((Builder.new "poll" "").edits pollEdits).draft.finish (.action ())).2.isOk
      = false := by
    decide +kernel
  rcases hs : (((Builder.new "poll" "").edits pollEdits).draft.finish (.action ())).2
    with fault | s
  · exact ⟨fault, rfl, (hreachable.sealing_faults _).1 fault hs⟩
  · rw [hs] at hfails
    cases hfails

end Draft

end SlashCommands
