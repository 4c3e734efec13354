import SealedStore.Entropy
import SealedStore.Proofs.Parts
/-!
# Objects put together from parts

An upload in parts from its start to its end, among any other operations of a
client. While it is open it has the parts that were added last, which may have
been uploaded twice, or copied from objects that changed; once an operation has
ended it, it stays over, since its name is not given again. Whether it can be
completed, and as which object, depends on these parts and the listed tags
alone.

What is proved:
  1. `Storage.Tracks.perform` — what one operation makes of an open upload.
  2. `ClientCall.tracks_performAll` — what a sequence makes of it.
  3. `ClientCall.agreesFor_filter` — sequences without the operations on other
     uploads.
  4. `Client.started_upload_completes` — completing an upload.
-/

namespace SealedStore

open Program (Ensures)

/-! ## Sequences of operations -/

namespace ClientCall

/-- The part that an operation adds, if the upload it names is there. What is
copied is what is stored at the source at that time, or the bytes of it at the
positions that are asked for. -/
def part? (c : Client) (s : Storage) : ClientCall → Option NewPart
  | .uploadPart _ u number content =>
    (c.received content).toOption.map fun b => { upload := u, number, content := b }
  | .copyPart source _ u number range => (s.objects.get? source).map fun object =>
      { upload := u, number, content := range.elim object.content (·.covered object.content) }
  | _ => none

/-- An operation that is to add a part. -/
def Adds : ClientCall → Prop
  | .uploadPart _ _ _ _ | .copyPart _ _ _ _ _ => True
  | _ => False

theorem perform_part (c : Client) {s : Storage} {a : ClientCall} (h : a.Adds) :
    Ensures Storage.serve (a.perform c) s fun _ t => t = s.withPart (a.part? c s) := by
  cases a with
  | uploadPart place u number content => exact (c.uploadPart_ensures number content).mono fun _ _ ht => ht.1
  | copyPart source place u number range => exact (c.copyPart_ensures source number range).mono fun _ _ ht => ht.1
  | put | get | read | copy | delete | metadata | acl | setMetadata | list | link | linkFromNow | initiate
  | complete | abort => exact h.elim

/-- An operation that is to complete an upload, or to give it up. -/
def Ends (u : String) : ClientCall → Prop
  | .complete _ v _ | .abort _ v => v = u
  | _ => False

/-- The world after an operation. -/
def after (c : Client) (a : ClientCall) (w : World Storage) : World Storage :=
  ((a.perform c).run Storage.serve w).2

/-- The last part that was added to an upload under a number. -/
def latest (c : Client) (u : String) : List ClientCall → World Storage → Int → Option Bytes
  | [], _, _ => none
  | a :: rest, w, number =>
    (latest c u rest (a.after c w) number).or ((a.part? c w.state).bind (·.under u number))

theorem performAll_cons (c : Client) (a : ClientCall) (rest : List ClientCall) (w : World Storage) :
    (performAll c (a :: rest)).run Storage.serve w =
      (⟨a, ((a.perform c).run Storage.serve w).1⟩ :: ((performAll c rest).run Storage.serve (a.after c w)).1,
        ((performAll c rest).run Storage.serve (a.after c w)).2) := by
  simp only [performAll, Program.run_bind, after]
  rfl

theorem call_mem_of_answer (c : Client) {calls : List ClientCall} {w : World Storage} {answer : Answer}
    (h : answer ∈ ((performAll c calls).run Storage.serve w).1) : answer.call ∈ calls := by
  induction calls generalizing w with
  | nil => exact absurd h List.not_mem_nil
  | cons a rest ih =>
    rw [performAll_cons] at h
    rcases List.mem_cons.mp h with rfl | h
    · exact List.mem_cons_self
    · exact List.mem_cons_of_mem _ (ih h)

def Answer.Ended (u : String) (answer : Answer) : Prop :=
  answer.call.Ends u ∧ ∃ a, answer.result = .ok a

theorem Adds.not_ends {a : ClientCall} {u : String} (h : a.Adds) : ¬ a.Ends u := by
  cases a with
  | uploadPart | copyPart => exact id
  | put | get | read | copy | delete | metadata | acl | setMetadata | list | link | linkFromNow | initiate
  | complete | abort => exact h.elim

theorem Ends.upload?_eq {a : ClientCall} {u : String} (h : a.Ends u) : a.upload? = some u := by
  cases a with
  | complete place v tags | abort place v => exact congrArg some h
  | put | get | read | copy | delete | metadata | acl | setMetadata | list | link | linkFromNow | initiate
  | uploadPart | copyPart => exact h.elim

theorem upload?_of_part? {c : Client} {s : Storage} {a : ClientCall} {p : NewPart} (h : a.part? c s = some p) :
    a.upload? = some p.upload := by
  cases a with
  | uploadPart place v number content =>
    obtain ⟨b, -, rfl⟩ := Option.map_eq_some_iff.mp h
    rfl
  | copyPart source place v number range =>
    obtain ⟨object, -, rfl⟩ := Option.map_eq_some_iff.mp h
    rfl
  | put | get | read | copy | delete | metadata | acl | setMetadata | list | link | linkFromNow | initiate
  | complete | abort => cases h

theorem part?_under {c : Client} {s : Storage} {a : ClientCall} {u : String} (h : a.upload? ≠ some u)
    (number : Int) : (a.part? c s).bind (·.under u number) = none := by
  refine Option.bind_eq_none_iff.mpr fun p hp => if_neg fun hunder => h ?_
  rw [upload?_of_part? hp, hunder.1]

end ClientCall

namespace Storage
variable {s : Storage} {u : String} {target : Identity} {metadata : Metadata} {acl : Option AccessList}
  {part : Int → Option Bytes}

theorem Closed.perform (h : s.Closed u) (c : Client) (a : ClientCall) :
    Ensures Storage.serve (a.perform c) s fun _ t => t.Closed u :=
  (a.quiet_perform c).only.keeps (fun call _ _ ht => ht.serve call) h

/-- An operation that does not name an upload leaves it alone. -/
theorem kept_perform (hissued : s.Issued u) (c : Client) {a : ClientCall} (h : a.upload? ≠ some u) :
    Ensures Storage.serve (a.perform c) s fun _ t => t.Issued u ∧ t.uploads.get? u = s.uploads.get? u := by
  refine (a.quiet_perform c).only.keeps (fun call t hcall ht => ?_) ⟨hissued, rfl⟩
  -- Whatever it calls names the upload that it names itself, or none.
  have hother : call.upload? ≠ some u := by
    rcases hcall with hnone | hnamed
    · rw [hnone]
      nofun
    · rwa [hnamed]
  exact ⟨ht.1.serve call, ((keepsUploads_serve call t).same u ht.1 hother).trans ht.2⟩

/-- An operation ends an open upload, or adds its part to it. -/
theorem Tracks.perform (h : s.Tracks u target metadata acl part) (c : Client) (a : ClientCall) :
    Ensures Storage.serve (a.perform c) s fun x t =>
      ((a.Ends u ∧ ∃ y, x = .ok y) ∧ t.Closed u) ∨
      (¬ (a.Ends u ∧ ∃ y, x = .ok y) ∧ t.Tracks u target metadata acl fun number =>
        ((a.part? c s).bind (·.under u number)).or (part number)) := by
  by_cases hadds : a.Adds
  · refine (ClientCall.perform_part c hadds).mono fun x t ht => .inr ⟨fun hends => hadds.not_ends hends.1, ?_⟩
    rw [ht]
    exact h.withPart _
  -- Only operations that end an upload are left, and those that name another one.
  by_cases hname : a.upload? = some u
  · cases a with
    | uploadPart | copyPart => exact absurd trivial hadds
    | complete place v tags =>
      obtain rfl := Option.some.inj hname
      refine c.complete_ensures.mono fun x t hx => ?_
      have hissued := h.issued.serve (.complete v tags)
      obtain ⟨-, object, done, hdone, hassembled⟩ | ⟨tag, -, hrefused⟩ := h.complete tags
      · rw [hdone] at hx hissued
        obtain ⟨hx, rfl⟩ := hx
        exact .inl ⟨⟨rfl, _, hx⟩, hissued, hassembled.gone⟩
      · rw [hrefused] at hx
        obtain ⟨hx, rfl⟩ := hx
        refine .inr ⟨fun hends => ?_, h⟩
        obtain ⟨-, y, hy⟩ := hends
        cases hx.symm.trans hy
    | abort place v =>
      obtain rfl := Option.some.inj hname
      obtain ⟨hissued, parts, hget, -⟩ := h
      refine c.abort_ensures.mono fun x t hx => ?_
      obtain ⟨hx, ht⟩ := hx
      rw [serve_abort hget] at hx ht
      refine .inl ⟨⟨rfl, _, hx⟩, ?_⟩
      rw [ht]
      exact ⟨hissued, (Table.get?_erase ..).trans (if_pos rfl)⟩
    | put | get | read | copy | delete | metadata | acl | setMetadata | list | link | linkFromNow | initiate =>
      cases hname
  · obtain ⟨hissued, parts, hget, hparts⟩ := h
    refine (kept_perform hissued c hname).mono fun x t ht => .inr ⟨fun hends => hname hends.1.upload?_eq, ?_⟩
    simp only [ClientCall.part?_under hname, Option.none_or]
    exact ⟨ht.1, parts, ht.2.trans hget, hparts⟩

end Storage

namespace ClientCall
variable {u : String} {target : Identity} {metadata : Metadata} {acl : Option AccessList}
  {part : Int → Option Bytes}

theorem closed_performAll (c : Client) (calls : List ClientCall) {w : World Storage} (h : w.state.Closed u) :
    ((performAll c calls).run Storage.serve w).2.state.Closed u := by
  induction calls generalizing w with
  | nil => exact h
  | cons a rest ih =>
    rw [performAll_cons]
    exact ih (h.perform c a w rfl)

/-- An open upload is over after some operations if one of them has ended it, and
else has got the parts that they added. -/
theorem tracks_performAll (c : Client) (calls : List ClientCall) {w : World Storage}
    (h : w.state.Tracks u target metadata acl part) :
    let out := (performAll c calls).run Storage.serve w
    ((∃ answer ∈ out.1, answer.Ended u) ∧ out.2.state.Closed u) ∨
    ((∀ answer ∈ out.1, ¬ answer.Ended u) ∧ out.2.state.Tracks u target metadata acl fun number =>
      (latest c u calls w number).or (part number)) := by
  -- Each operation begins with the parts that those before it have added.
  induction calls generalizing w part with
  | nil => exact .inr ⟨fun _ hmem => absurd hmem List.not_mem_nil, h⟩
  | cons a rest ih =>
    rw [performAll_cons]
    obtain ⟨hended, hclosed⟩ | ⟨hopen, htracks⟩ := h.perform c a w rfl
    · exact .inl ⟨⟨_, List.mem_cons_self, hended⟩, closed_performAll c rest hclosed⟩
    · obtain ⟨⟨answer, hmem, hended⟩, hclosed⟩ | ⟨hrest, htracks⟩ := ih (w := a.after c w) htracks
      · exact .inl ⟨⟨answer, List.mem_cons_of_mem _ hmem, hended⟩, hclosed⟩
      · refine .inr ⟨List.forall_mem_cons.mpr ⟨hopen, hrest⟩, ?_⟩
        simp only [latest, Option.or_assoc]
        exact htracks

/-! ## Operations on other uploads -/

/-- An operation on no upload, or on this one. -/
def concerns (u : String) (a : ClientCall) : Bool := a.upload?.all (· == u)

theorem concerns_iff {a : ClientCall} : a.concerns u = true ↔ ∀ v, a.upload? = some v → v = u := by
  unfold concerns
  cases a.upload? <;> simp

theorem agreesFor_perform {c : Client} {w v : World Storage} (h : w.state.AgreesFor u v.state) {a : ClientCall}
    (ha : a.concerns u = true) :
    ((a.perform c).run Storage.serve w).1 = ((a.perform c).run Storage.serve v).1 ∧
      (a.after c w).state.AgreesFor u (a.after c v).state := by
  refine (a.quiet_perform c).run_alike (fun call s t hcall hst => hst.serve fun name hname => ?_) h
  rcases hcall with hnone | hnamed
  · cases hnone.symm.trans hname
  · exact concerns_iff.mp ha name (hnamed ▸ hname)

/-- An operation on another upload makes no difference to an upload, unless it
makes an object of the other. -/
theorem agreesFor_after {c : Client} {w : World Storage} {a : ClientCall} (ha : a.concerns u = false)
    (hcomplete : ∀ place v tags, a = .complete place v tags → v = u) :
    w.state.AgreesFor u (a.after c w).state := by
  have hother : a.upload? ≠ some u := by
    intro hname
    have htrue : a.concerns u = true := concerns_iff.mpr fun v hv => Option.some.inj (hv.symm.trans hname)
    cases htrue.symm.trans ha
  have hadds : a.Adds → w.state.AgreesFor u (a.after c w).state := by
    intro hadds
    have hstate : (a.after c w).state = w.state.withPart (a.part? c w.state) := perform_part c hadds w rfl
    rw [hstate]
    cases hpart : a.part? c w.state with
    | none => exact .refl u _
    | some p => exact .uploadPart (fun hu => hother ((upload?_of_part? hpart).trans (congrArg some hu))) ..
  cases a with
  | uploadPart | copyPart => exact hadds trivial
  | abort place v =>
    have hstate : (after c (.abort place v) w).state = (Storage.serve (.abort v) w.state).2 :=
      (c.abort_ensures w rfl).2
    rw [hstate]
    exact .abort (fun hu => hother (congrArg some hu)) w.state
  | complete place v tags => exact absurd (congrArg some (hcomplete place v tags rfl)) hother
  | put | get | read | copy | delete | metadata | acl | setMetadata | list | link | linkFromNow | initiate =>
    cases ha

/-- Without the operations on other uploads the store is the same to an upload. -/
theorem agreesFor_filter (c : Client) {calls : List ClientCall}
    (hcalls : ∀ place v tags, .complete place v tags ∈ calls → v = u) {w v : World Storage}
    (h : w.state.AgreesFor u v.state) :
    ((performAll c calls).run Storage.serve w).2.state.AgreesFor u
      ((performAll c (calls.filter (concerns u))).run Storage.serve v).2.state := by
  induction calls generalizing w v with
  | nil => exact h
  | cons a rest ih =>
    have hrest : ∀ place v tags, .complete place v tags ∈ rest → v = u :=
      fun place v tags hmem => hcalls place v tags (List.mem_cons_of_mem _ hmem)
    rw [performAll_cons, List.filter_cons]
    cases ha : a.concerns u with
    | true =>
      rw [if_pos rfl, performAll_cons]
      exact ih hrest (agreesFor_perform h ha).2
    | false =>
      rw [if_neg (by decide)]
      -- One side leaves the operation out, and is compared with what there was before it.
      have hafter := agreesFor_after (c := c) (w := w) ha fun place v tags heq =>
        hcalls place v tags (heq ▸ List.mem_cons_self)
      exact ih hrest (hafter.symm.trans h)

end ClientCall

/-! ## Uploads from their start to their end -/

namespace Client

def afterAll (c : Client) (calls : List ClientCall) (w : World Storage) : World Storage :=
  ((ClientCall.performAll c calls).run Storage.serve w).2

/-- No operation has ended an upload. -/
def LeavesOpen (c : Client) (calls : List ClientCall) (u : String) (w : World Storage) : Prop :=
  ∀ answer ∈ ((ClientCall.performAll c calls).run Storage.serve w).1, ¬ answer.Ended u

theorem leavesOpen_of_not_ends (c : Client) {calls : List ClientCall} {u : String} (h : ∀ a ∈ calls, ¬ a.Ends u)
    (w : World Storage) : c.LeavesOpen calls u w :=
  fun answer hmem hended => h answer.call (ClientCall.call_mem_of_answer c hmem) hended.1

def completion (c : Client) (place : Identity) (u : String) (tags : List PartTag) (w : World Storage) :
    Except Error WriteResult × World Storage := (c.complete place u tags).run.run Storage.serve w

/-- What becomes of an upload that was started in `w` for a target, with metadata
and an access list, when it is completed after some operations. -/
structure Completes (c : Client) (w : World Storage) (u : String) (target : Identity) (metadata : Metadata)
    (acl : Option AccessList) (calls : List ClientCall) (place : Identity) (tags : List PartTag)
    (v : World Storage) (out : Except Error WriteResult × World Storage) : Prop where
  /-- It becomes an object if it is still open and every tag has the ETag of the
  part that was added last. -/
  succeeds_iff : (∃ result, out.1 = .ok result) ↔
    c.LeavesOpen calls u w ∧ ∀ tag ∈ tags, tag.Fits (ClientCall.latest c u calls w)
  /-- The object is put together from these parts. -/
  assembled : ∀ result, out.1 = .ok result → ∃ object, result = written (Storage.shown object) ∧
    v.state.Assembled u target metadata acl (ClientCall.latest c u calls w) tags object out.2.state
  /-- The error names the upload, or the least number that does not fit. -/
  refused : ∀ e, out.1 = .error e →
    ¬ c.LeavesOpen calls u w ∧ e = .storage (.noSuchUpload u) ∨
    c.LeavesOpen calls u w ∧ ∃ tag, FirstBad (PartTag.Fits (ClientCall.latest c u calls w)) tags tag ∧
      e = .storage (.invalidPart tag.number u)
  /-- A failure changes nothing, and another list is taken as it would have been. -/
  retried : ∀ e, out.1 = .error e → out.2.state = v.state ∧ ∀ corrected,
    (c.completion place u corrected out.2).1 = (c.completion place u corrected v).1 ∧
      (c.completion place u corrected out.2).2.state = (c.completion place u corrected v).2.state
  /-- The order of the tags plays no role. -/
  any_order : ∀ other, other.Perm tags →
    (c.completion place u other v).1 = out.1 ∧ (c.completion place u other v).2.state = out.2.state
  /-- Operations on other uploads play no role, unless they make objects of them. -/
  apart : (∀ i v tags, .complete i v tags ∈ calls → v = u) →
    let alone := c.completion place u tags (c.afterAll (calls.filter (ClientCall.concerns u)) w)
    out.1 = alone.1 ∧ out.2.state.AgreesFor u alone.2.state
  /-- If they do, they play none but for the time and the version, as long as what
  is copied into this upload is the same. -/
  determined : ∀ others, (c.LeavesOpen others u w ↔ c.LeavesOpen calls u w) →
    ClientCall.latest c u others w = ClientCall.latest c u calls w →
    Matches WriteResult.unstamped (c.completion place u tags (c.afterAll others w)).1 out.1

section
variable {c : Client} {w : World Storage} {u : String} {target : Identity} {metadata : Metadata}
  {acl : Option AccessList}

theorem run_completion (c : Client) (place : Identity) (u : String) (tags : List PartTag) (v : World Storage) :
    (c.completion place u tags v).1 =
      (Storage.serve (.complete u tags) v.state).1.map (fun object => written (Storage.shown object)) ∧
    (c.completion place u tags v).2.state = (Storage.serve (.complete u tags) v.state).2 :=
  c.complete_ensures v rfl

theorem completion_congr (place : Identity) (u : String) (tags : List PartTag) {v v' : World Storage}
    (h : v'.state = v.state) :
    (c.completion place u tags v').1 = (c.completion place u tags v).1 ∧
      (c.completion place u tags v').2.state = (c.completion place u tags v).2.state := by
  obtain ⟨hresult, hstate⟩ := c.run_completion place u tags v
  obtain ⟨hresult', hstate'⟩ := c.run_completion place u tags v'
  rw [hresult, hresult', hstate, hstate', h]
  exact ⟨rfl, rfl⟩

theorem afterAll_cases (h : w.state.Tracks u target metadata acl fun _ => none) (calls : List ClientCall) :
    (¬ c.LeavesOpen calls u w ∧ (c.afterAll calls w).state.Closed u) ∨
    (c.LeavesOpen calls u w ∧
      (c.afterAll calls w).state.Tracks u target metadata acl (ClientCall.latest c u calls w)) := by
  obtain ⟨⟨answer, hmem, hended⟩, hclosed⟩ | ⟨hopen, htracks⟩ := ClientCall.tracks_performAll c calls h
  · exact .inl ⟨fun hopen => hopen answer hmem hended, hclosed⟩
  · simp only [Option.or_none] at htracks
    exact .inr ⟨hopen, htracks⟩

/-- The three ways in which completing ends. -/
theorem completion_cases (h : w.state.Tracks u target metadata acl fun _ => none) (calls : List ClientCall)
    (place : Identity) (tags : List PartTag) :
    let v := c.afterAll calls w
    let out := c.completion place u tags v
    let latest := ClientCall.latest c u calls w
    (c.LeavesOpen calls u w ∧ (∀ tag ∈ tags, tag.Fits latest) ∧ ∃ object,
      out.1 = .ok (written (Storage.shown object)) ∧
        v.state.Assembled u target metadata acl latest tags object out.2.state) ∨
    (c.LeavesOpen calls u w ∧ out.2.state = v.state ∧ ∃ tag, FirstBad (PartTag.Fits latest) tags tag ∧
      out.1 = .error (.storage (.invalidPart tag.number u))) ∨
    (¬ c.LeavesOpen calls u w ∧ out.2.state = v.state ∧ out.1 = .error (.storage (.noSuchUpload u))) := by
  intro v out latest
  obtain ⟨hresult, hstate⟩ := c.run_completion place u tags v
  obtain ⟨hover, hclosed⟩ | ⟨hopen, htracks⟩ := afterAll_cases (c := c) h calls
  · have hgone : Storage.serve (.complete u tags) v.state = _ :=
      Storage.serve_complete (Storage.complete_gone hclosed.gone tags)
    rw [hgone] at hresult hstate
    exact .inr (.inr ⟨hover, hstate, hresult⟩)
  · obtain ⟨hfits, object, t, hdone, hassembled⟩ | ⟨tag, hfirst, hrefused⟩ := htracks.complete tags
    · have hdone : Storage.serve (.complete u tags) v.state = (.ok object, t) := hdone
      rw [hdone] at hresult hstate
      refine .inl ⟨hopen, hfits, object, hresult, ?_⟩
      rw [hstate]
      exact hassembled
    · have hrefused : Storage.serve (.complete u tags) v.state = _ := hrefused
      rw [hrefused] at hresult hstate
      exact .inr (.inl ⟨hopen, hstate, tag, hfirst, hresult⟩)

theorem succeeds_iff (h : w.state.Tracks u target metadata acl fun _ => none) (calls : List ClientCall)
    (place : Identity) (tags : List PartTag) :
    (∃ result, (c.completion place u tags (c.afterAll calls w)).1 = .ok result) ↔
      c.LeavesOpen calls u w ∧ ∀ tag ∈ tags, tag.Fits (ClientCall.latest c u calls w) := by
  obtain ⟨hopen, hfits, object, hok, -⟩ | ⟨-, -, tag, hfirst, herror⟩ | ⟨hover, -, herror⟩ :=
    completion_cases (c := c) h calls place tags
  · exact ⟨fun _ => ⟨hopen, hfits⟩, fun _ => ⟨_, hok⟩⟩
  · constructor
    · rintro ⟨result, hok⟩
      cases herror.symm.trans hok
    · exact fun hall => absurd (hall.2 tag hfirst.listed) hfirst.bad
  · constructor
    · rintro ⟨result, hok⟩
      cases herror.symm.trans hok
    · exact fun hall => absurd hall.1 hover

theorem completion_perm (c : Client) (place : Identity) (u : String) {tags other : List PartTag}
    (hperm : other.Perm tags) (v : World Storage) :
    (c.completion place u other v).1 = (c.completion place u tags v).1 ∧
      (c.completion place u other v).2.state = (c.completion place u tags v).2.state := by
  obtain ⟨hresult, hstate⟩ := c.run_completion place u tags v
  obtain ⟨hresult', hstate'⟩ := c.run_completion place u other v
  have hserve : Storage.serve (.complete u other) v.state = Storage.serve (.complete u tags) v.state :=
    Storage.serve_complete (Storage.complete_perm hperm)
  rw [hresult, hresult', hstate, hstate', hserve]
  exact ⟨rfl, rfl⟩

theorem completion_alone {calls : List ClientCall} (hcalls : ∀ i v tags, .complete i v tags ∈ calls → v = u)
    (place : Identity) (tags : List PartTag) :
    let alone := c.completion place u tags (c.afterAll (calls.filter (ClientCall.concerns u)) w)
    (c.completion place u tags (c.afterAll calls w)).1 = alone.1 ∧
      (c.completion place u tags (c.afterAll calls w)).2.state.AgreesFor u alone.2.state := by
  have hcomplete : (ClientCall.complete place u tags).concerns u = true :=
    ClientCall.concerns_iff.mpr fun v hv => (Option.some.inj hv).symm
  exact ClientCall.agreesFor_perform (ClientCall.agreesFor_filter c hcalls (.refl u w.state)) hcomplete

/-- Other operations take the place of those that there were. -/
theorem completion_matches (h : w.state.Tracks u target metadata acl fun _ => none)
    {calls others : List ClientCall} (hopen : c.LeavesOpen others u w ↔ c.LeavesOpen calls u w)
    (hlatest : ClientCall.latest c u others w = ClientCall.latest c u calls w) (place : Identity)
    (tags : List PartTag) :
    Matches WriteResult.unstamped (c.completion place u tags (c.afterAll others w)).1
      (c.completion place u tags (c.afterAll calls w)).1 := by
  have hmatches : Matches StoredObject.unstamped (Storage.serve (.complete u tags) (c.afterAll others w).state).1
      (Storage.serve (.complete u tags) (c.afterAll calls w).state).1 := by
    -- The upload is over in both stores, or open in both with the same parts.
    obtain ⟨hover', hclosed'⟩ | ⟨hopen', htracks'⟩ := afterAll_cases (c := c) h others
    · obtain ⟨-, hclosed⟩ | ⟨hopened, -⟩ := afterAll_cases (c := c) h calls
      · rw [Storage.serve_complete (Storage.complete_gone hclosed.gone tags),
          Storage.serve_complete (Storage.complete_gone hclosed'.gone tags)]
        exact .error _
      · exact absurd (hopen.mpr hopened) hover'
    · obtain ⟨hover, -⟩ | ⟨-, htracks⟩ := afterAll_cases (c := c) h calls
      · exact absurd (hopen.mp hopen') hover
      · rw [hlatest] at htracks'
        exact htracks'.complete_matches htracks tags
  have hwritten : ∀ a : StoredObject, WriteResult.unstamped (written (Storage.shown a)) =
      written (Storage.shown a.unstamped) := fun _ => rfl
  rw [(c.run_completion place u tags (c.afterAll others w)).1,
    (c.run_completion place u tags (c.afterAll calls w)).1]
  exact hmatches.map fun a b hab => by rw [hwritten, hwritten, hab]

theorem completes_of_tracks (h : w.state.Tracks u target metadata acl fun _ => none) (calls : List ClientCall)
    (place : Identity) (tags : List PartTag) :
    c.Completes w u target metadata acl calls place tags (c.afterAll calls w)
      (c.completion place u tags (c.afterAll calls w)) where
  succeeds_iff := succeeds_iff h calls place tags
  assembled result hok := by
    obtain ⟨-, -, object, hdone, hassembled⟩ | ⟨-, -, tag, -, herror⟩ | ⟨-, -, herror⟩ :=
      completion_cases (c := c) h calls place tags
    · exact ⟨object, Except.ok.inj (hok.symm.trans hdone), hassembled⟩
    · cases herror.symm.trans hok
    · cases herror.symm.trans hok
  refused e herror := by
    obtain ⟨-, -, object, hok, -⟩ | ⟨hopen, -, tag, hfirst, hbad⟩ | ⟨hover, -, hgone⟩ :=
      completion_cases (c := c) h calls place tags
    · cases hok.symm.trans herror
    · exact .inr ⟨hopen, tag, hfirst, Except.error.inj (herror.symm.trans hbad)⟩
    · exact .inl ⟨hover, Except.error.inj (herror.symm.trans hgone)⟩
  retried e herror := by
    have hsame : (c.completion place u tags (c.afterAll calls w)).2.state = (c.afterAll calls w).state := by
      obtain ⟨-, -, object, hok, -⟩ | ⟨-, hsame, -⟩ | ⟨-, hsame, -⟩ := completion_cases (c := c) h calls place tags
      · cases hok.symm.trans herror
      · exact hsame
      · exact hsame
    exact ⟨hsame, fun corrected => completion_congr place u corrected hsame⟩
  any_order other hperm := c.completion_perm place u hperm (c.afterAll calls w)
  apart hcalls := completion_alone hcalls place tags
  determined others hopen hlatest := completion_matches h hopen hlatest place tags

end

/-- An upload that was started ends as its parts say: when it is completed, after
any operations whatever, it becomes an object if and only if it is still open and
every listed tag has the ETag of the part that was last uploaded or copied under
its number. The object is put together from these parts in ascending order,
where the upload was started for; a failure leaves everything as it is, so that
another list may be tried; the order of the list and what is done with other
uploads play no role. -/
theorem started_upload_completes (c : Client) (w : World Storage) (target : Identity) (metadata : Option Metadata)
    (acl : Option AccessList) :
    let started := (c.initiate target metadata acl).run.run Storage.serve w
    ∃ u, started.1 = .ok { target, uploadId := u } ∧ ∀ calls place tags,
      let v := c.afterAll calls started.2
      c.Completes started.2 u target (metadata.getD {}) acl calls place tags v (c.completion place u tags v) := by
  obtain ⟨hresult, hstate⟩ := c.initiate_ensures target metadata acl w rfl
  refine ⟨_, hresult, fun calls place tags => completes_of_tracks ?_ calls place tags⟩
  rw [hstate]
  exact w.state.tracks_initiate target metadata acl

/-- A part is uploaded twice, the second one before it. -/
def twoParts (u : String) : List ClientCall :=
  [.uploadPart ⟨"bucket", "big"⟩ u 1 (some (.bytes [9])), .uploadPart ⟨"bucket", "big"⟩ u 2 (some (.bytes [4, 5])),
    .uploadPart ⟨"bucket", "big"⟩ u 1 (some (.bytes [1, 2, 3]))]

/-- The parts are listed in the wrong order, and the completion names another
place. -/
theorem started_upload_completes_twoParts :
    let started := (({} : Client).initiate ⟨"bucket", "big"⟩ none none).run.run Storage.serve
      { entropy := Entropy.ofSeed "", state := {} }
    ∃ (u : String) (object : StoredObject), started.1 = .ok { target := ⟨"bucket", "big"⟩, uploadId := u } ∧
      let out := ({} : Client).completion ⟨"bucket", "other"⟩ u [⟨2, Md5.hex [4, 5]⟩, ⟨1, Md5.hex [1, 2, 3]⟩]
        (({} : Client).afterAll (twoParts u) started.2)
      out.2.state.objects.get? ⟨"bucket", "big"⟩ = some object ∧ object.content = [1, 2, 3, 4, 5] := by
  intro started
  have hcompletes : ∃ u, started.1 = .ok { target := ⟨"bucket", "big"⟩, uploadId := u } ∧ ∀ calls place tags,
      let v := ({} : Client).afterAll calls started.2
      ({} : Client).Completes started.2 u ⟨"bucket", "big"⟩ {} none calls place tags v
        (({} : Client).completion place u tags v) := started_upload_completes {} _ ⟨"bucket", "big"⟩ none none
  -- Nothing is to unfold the run that started the upload.
  clear_value started
  obtain ⟨u, hstarted, hcompletes⟩ := hcompletes
  have h := hcompletes (twoParts u) ⟨"bucket", "other"⟩ [⟨2, Md5.hex [4, 5]⟩, ⟨1, Md5.hex [1, 2, 3]⟩]
  have hopen : ({} : Client).LeavesOpen (twoParts u) u started.2 :=
    leavesOpen_of_not_ends {} (by simp [twoParts, ClientCall.Ends]) started.2
  have hfirst : ClientCall.latest {} u (twoParts u) started.2 1 = some [1, 2, 3] := by
    simp [twoParts, ClientCall.latest, ClientCall.part?, received_bytes, Except.toOption, NewPart.under]
  have hsecond : ClientCall.latest {} u (twoParts u) started.2 2 = some [4, 5] := by
    simp [twoParts, ClientCall.latest, ClientCall.part?, received_bytes, Except.toOption, NewPart.under]
  obtain ⟨result, hok⟩ := h.succeeds_iff.mpr ⟨hopen, List.forall_mem_cons.mpr
    ⟨⟨_, hsecond, rfl⟩, List.forall_mem_singleton.mpr ⟨_, hfirst, rfl⟩⟩⟩
  obtain ⟨object, -, hassembled⟩ := h.assembled result hok
  refine ⟨u, object, hstarted, hassembled.stored, ?_⟩
  -- In ascending order the tag that was listed last comes first.
  obtain ⟨contents, hcontents, hcontent, -⟩ := hassembled.content
    [⟨1, Md5.hex [1, 2, 3]⟩, ⟨2, Md5.hex [4, 5]⟩] (.swap ..) (by simp [Ascending])
  have hparts : contents.map some = List.map some [[1, 2, 3], [4, 5]] := by
    rw [← hcontents, List.map_cons, List.map_cons, List.map_nil, hfirst, hsecond]
    rfl
  rw [hcontent, (List.map_inj_right fun _ _ => Option.some.inj).mp hparts]
  rfl

end Client

end SealedStore
