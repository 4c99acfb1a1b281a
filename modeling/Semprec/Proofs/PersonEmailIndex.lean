import Semprec.PersonEmailIndex

/-!
# The index at rest

What carries the invariant is a job that has yet to read the person.  Where there is none, the jobs
of the person have all read the addresses that it has now, and what they have not done to the rows
of the person they are still to do.
-/

namespace Semprec

namespace PersonEmailIndex

variable {toLowerCase : String → String} {alike kept : Prop} {s s' : Sys} {job : Job}
  {others : List Job} {p : ℕ}
  {normalized deleted rest inserted : List String} {email : String}

namespace Phase

def Ok : Phase → Prop
  | read => True
  | select _ => True
  | delete normalized toClaim => toClaim ⊆ normalized
  | insert normalized deleted rest inserted =>
    (∀ email ∈ deleted, email ∉ normalized) ∧ rest ⊆ normalized ∧ inserted ⊆ normalized

/-- The job takes the address from its person, unless the person lists it. -/
def Clears (email : String) : Phase → Prop
  | read => False
  | select _ => True
  | delete _ _ => True
  | insert _ deleted _ _ => email ∈ deleted

/-- The job claims the address, unless someone has it. -/
def Claims (email : String) : Phase → Prop
  | read => False
  | select _ => True
  | delete _ toClaim => email ∈ toClaim
  | insert _ _ rest inserted => email ∈ rest ∨ email ∈ inserted

@[simp] theorem inserted_insert :
    (insert normalized deleted rest inserted).inserted = inserted := rfl

theorem Claims.of_isEarly {phase : Phase} (hearly : phase.isEarly = true)
    (hread : phase.normalized = some normalized) : phase.Claims email := by
  rcases phase
  case read => simp [Phase.normalized] at hread
  case select => trivial
  all_goals simp [isEarly] at hearly

end Phase

theorem Phase.eq_read {phase : Phase} (h : phase.normalized = none) : phase = .read := by
  rcases phase
  case read => rfl
  all_goals simp [normalized] at h

def Sys.keys (s : Sys) : List String :=
  s.rows.map (·.email) ++ s.jobs.flatMap (·.phase.inserted)

variable (toLowerCase kept) in
structure Tracked (s : Sys) (p : ℕ) (person : Person) : Prop where
  fresh : ∀ job ∈ s.jobs, job.personItemId = p →
    job.phase.normalized = some (person.normalized toLowerCase)
  listed : ∀ row ∈ s.rows, row.itemId = p → row.email ∈ person.normalized toLowerCase ∨
    ∃ job ∈ s.jobs, job.personItemId = p ∧ job.phase.Clears row.email
  mapped : kept → ∀ email ∈ person.normalized toLowerCase, email ∈ s.rows.map (·.email) ∨
    ∃ job ∈ s.jobs, job.personItemId = p ∧ job.phase.Claims email

variable (toLowerCase kept) in
def Settled (s : Sys) (p : ℕ) : Prop :=
  ∀ person ∈ s.people[p]?, person.skipped = true ∨ ⟨p, .read⟩ ∈ s.jobs ∨
    Tracked toLowerCase kept s p person

variable (toLowerCase alike kept) in
/-- What a run keeps of whose steps `alike` and `kept` are assumed. -/
structure Inv (s : Sys) : Prop where
  unique : s.keys.Nodup
  jobs : ∀ job ∈ s.jobs, job.personItemId < s.people.length ∧ job.phase.Ok
  owners : ∀ row ∈ s.rows, row.itemId < s.people.length
  people : alike → ∀ p, Settled toLowerCase kept s p

/-! ## What the jobs of others leave alone -/

theorem Settled.of_other (h : Settled toLowerCase kept s p)
    (hpeople : s'.people[p]? = s.people[p]?)
    (hjobs : ∀ job, job.personItemId = p → (job ∈ s'.jobs ↔ job ∈ s.jobs))
    (hrows : ∀ row ∈ s'.rows, row.itemId = p → row ∈ s.rows)
    (hkeys : kept → ∀ person ∈ s.people[p]?, person.skipped = false →
      ∀ email ∈ person.normalized toLowerCase, email ∈ s.rows.map (·.email) →
        email ∈ s'.rows.map (·.email) ∨
          ∃ other ∈ s.jobs, other.personItemId = p ∧ other.phase.isEarly = true) :
    Settled toLowerCase kept s' p := by
  intro person hperson
  rw [hpeople] at hperson
  rcases Bool.eq_false_or_eq_true person.skipped with hskipped | hskipped
  · exact .inl hskipped
  rcases h person hperson with hs | hwaiting | htracked
  · exact .inl hs
  · exact .inr (.inl ((hjobs _ rfl).mpr hwaiting))
  refine .inr (.inr ⟨?_, ?_, ?_⟩)
  · exact fun job hjob hp => htracked.fresh job ((hjobs job hp).mp hjob) hp
  · intro row hrow hp
    rcases htracked.listed row (hrows row hrow hp) hp with hlisted | ⟨job, hjob, hjp, hclears⟩
    · exact .inl hlisted
    · exact .inr ⟨job, (hjobs job hjp).mpr hjob, hjp, hclears⟩
  · intro hkept email hemail
    rcases htracked.mapped hkept email hemail with hmapped | ⟨job, hjob, hjp, hclaims⟩
    · rcases hkeys hkept person hperson hskipped email hemail hmapped with
        hkey | ⟨job, hjob, hjp, hearly⟩
      · exact .inl hkey
      · exact .inr ⟨job, (hjobs job hjp).mpr hjob, hjp,
          .of_isEarly hearly (htracked.fresh job hjob hjp)⟩
    · exact .inr ⟨job, (hjobs job hjp).mpr hjob, hjp, hclaims⟩

theorem Settled.of_rows_eq (h : Settled toLowerCase kept s p)
    (hpeople : s'.people[p]? = s.people[p]?)
    (hjobs : ∀ job, job.personItemId = p → (job ∈ s'.jobs ↔ job ∈ s.jobs))
    (hrows : s'.rows = s.rows) : Settled toLowerCase kept s' p :=
  h.of_other hpeople hjobs (fun _ hrow _ => hrows ▸ hrow)
    fun _ _ _ _ _ _ hemail => .inl (hrows ▸ hemail)

theorem Inv.perm (h : Inv toLowerCase alike kept s) {jobs : List Job} (hperm : s.jobs.Perm jobs) :
    Inv toLowerCase alike kept { s with jobs } where
  unique := by
    have hkeys : s.keys.Perm (Sys.keys { s with jobs }) :=
      (hperm.flatMap_right _).append_left _
    exact hkeys.nodup_iff.mp h.unique
  jobs job hjob := h.jobs job (hperm.mem_iff.mpr hjob)
  owners := h.owners
  people ha p := (h.people ha p).of_rows_eq rfl (fun _ _ => hperm.mem_iff.symm) rfl

theorem perm_cons_eraseIdx {jobs : List Job} {i : ℕ} (h : jobs[i]? = some job) :
    jobs.Perm (job :: jobs.eraseIdx i) := by
  obtain ⟨hi, rfl⟩ := List.getElem?_eq_some_iff.mp h
  exact (List.getElem_cons_eraseIdx_perm hi).symm

theorem mem_cons_of_ne (hne : job.personItemId ≠ p) {other : Job}
    (hp : other.personItemId = p) : other ∈ job :: others ↔ other ∈ others := by
  rw [List.mem_cons, or_iff_right]
  rintro rfl
  exact hne hp

/-! ## One statement of a job -/

/-- Where the rows stay, a statement may drop what its job was to do to them once it is done. -/
theorem Settled.setPhase
    (h : Settled toLowerCase kept { s with jobs := job :: others } job.personItemId)
    (hread : job.phase.normalized = some normalized) {phase : Phase}
    (hphase : phase.normalized = some normalized)
    (hclears : ∀ row ∈ s.rows, row.itemId = job.personItemId → job.phase.Clears row.email →
      row.email ∈ normalized ∨ phase.Clears row.email)
    (hclaims : ∀ email ∈ normalized, job.phase.Claims email →
      email ∈ s.rows.map (·.email) ∨ phase.Claims email) :
    Settled toLowerCase kept { s with jobs := ⟨job.personItemId, phase⟩ :: others }
      job.personItemId := by
  intro person hperson
  rcases h person hperson with hskipped | hwaiting | htracked
  · exact .inl hskipped
  · rcases List.mem_cons.mp hwaiting with heq | hwaiting
    · simp [← congrArg Job.phase heq, Phase.normalized] at hread
    · exact .inr (.inl (List.mem_cons_of_mem _ hwaiting))
  have hown := htracked.fresh job List.mem_cons_self rfl
  obtain rfl : normalized = person.normalized toLowerCase := Option.some.inj (hread.symm.trans hown)
  refine .inr (.inr ⟨?_, ?_, ?_⟩)
  · rintro other hother hp
    rcases List.mem_cons.mp hother with rfl | hother
    · exact hphase
    · exact htracked.fresh other (List.mem_cons_of_mem _ hother) hp
  · intro row hrow hp
    rcases htracked.listed row hrow hp with hlisted | ⟨other, hother, hop, hother'⟩
    · exact .inl hlisted
    rcases List.mem_cons.mp hother with rfl | hother
    · exact (hclears row hrow hp hother').imp_right fun hc => ⟨_, List.mem_cons_self, rfl, hc⟩
    · exact .inr ⟨other, List.mem_cons_of_mem _ hother, hop, hother'⟩
  · intro hkept email hemail
    rcases htracked.mapped hkept email hemail with hmapped | ⟨other, hother, hop, hother'⟩
    · exact .inl hmapped
    rcases List.mem_cons.mp hother with rfl | hother
    · exact (hclaims email hemail hother').imp_right fun hc => ⟨_, List.mem_cons_self, rfl, hc⟩
    · exact .inr ⟨other, List.mem_cons_of_mem _ hother, hop, hother'⟩

namespace Inv

theorem setPhase (h : Inv toLowerCase alike kept { s with jobs := job :: others })
    (hread : job.phase.normalized = some normalized) {phase : Phase}
    (hphase : phase.normalized = some normalized) (hok : phase.Ok)
    (hunique : (Sys.keys { s with jobs := ⟨job.personItemId, phase⟩ :: others }).Nodup)
    (hclears : ∀ row ∈ s.rows, row.itemId = job.personItemId → job.phase.Clears row.email →
      row.email ∈ normalized ∨ phase.Clears row.email)
    (hclaims : ∀ email ∈ normalized, job.phase.Claims email →
      email ∈ s.rows.map (·.email) ∨ phase.Claims email) :
    Inv toLowerCase alike kept { s with jobs := ⟨job.personItemId, phase⟩ :: others } where
  unique := hunique
  jobs other hother := by
    rcases List.mem_cons.mp hother with rfl | hother
    · exact ⟨(h.jobs job List.mem_cons_self).1, hok⟩
    · exact h.jobs other (List.mem_cons_of_mem _ hother)
  owners := h.owners
  people ha p := by
    rcases eq_or_ne job.personItemId p with rfl | hne
    · exact (h.people ha _).setPhase hread hphase hclears hclaims
    · refine (h.people ha p).of_rows_eq rfl (fun other hp => ?_) rfl
      have hnew : other ∈ ⟨job.personItemId, phase⟩ :: others ↔ other ∈ others :=
        mem_cons_of_ne (by exact hne) hp
      exact hnew.trans (mem_cons_of_ne hne hp).symm

theorem replace (h : Inv toLowerCase alike kept { s with jobs := job :: others })
    {people : List Person} (hlength : people.length = s.people.length)
    (hpeople : ∀ p ≠ job.personItemId, people[p]? = s.people[p]?) (own : List Phase)
    (hphases : ∀ phase ∈ own, phase.Ok ∧ phase.inserted = [])
    (hown : alike → Settled toLowerCase kept
      { s with people, jobs := own.map (⟨job.personItemId, ·⟩) ++ others } job.personItemId) :
    Inv toLowerCase alike kept
      { s with people, jobs := own.map (⟨job.personItemId, ·⟩) ++ others } where
  unique := by
    have hnone : (own.map (Job.mk job.personItemId)).flatMap (·.phase.inserted) = [] := by
      simpa [List.flatMap_eq_nil_iff] using fun phase hphase => (hphases phase hphase).2
    unfold Sys.keys
    rw [List.flatMap_append, hnone, List.nil_append]
    exact h.unique.sublist ((List.sublist_append_right _ _).append_left _)
  jobs other hother := by
    rw [hlength]
    rcases List.mem_append.mp hother with hother | hother
    · obtain ⟨phase, hphase, rfl⟩ := List.mem_map.mp hother
      exact ⟨(h.jobs job List.mem_cons_self).1, (hphases phase hphase).1⟩
    · exact h.jobs other (List.mem_cons_of_mem _ hother)
  owners row hrow := hlength ▸ h.owners row hrow
  people ha p := by
    rcases eq_or_ne job.personItemId p with rfl | hne
    · exact hown ha
    · refine (h.people ha p).of_rows_eq (hpeople p hne.symm) (fun other hp => ?_) rfl
      rw [mem_cons_of_ne hne hp, List.mem_append, or_iff_right]
      intro hother
      obtain ⟨phase, -, rfl⟩ := List.mem_map.mp hother
      exact hne hp

theorem read (h : Inv toLowerCase alike kept { s with jobs := job :: others })
    (hfresh : alike → ∀ person ∈ s.people[job.personItemId]?, person.state = .live →
      ∀ other ∈ others, other.personItemId = job.personItemId →
        ∀ normalized ∈ other.phase.normalized, normalized = person.normalized toLowerCase) :
    Inv toLowerCase alike kept (s.read toLowerCase job.personItemId others) := by
  unfold Sys.read
  split
  · rename_i hnone
    exact h.replace rfl (fun _ _ => rfl) [] (by simp) (by simp [Settled, hnone])
  rename_i person hperson
  split_ifs with hlive
  · refine h.replace rfl (fun _ _ => rfl) [.select (person.normalized toLowerCase)]
      (by simp [Phase.Ok, Phase.inserted]) ?_
    intro ha person' hperson'
    obtain rfl : person = person' := Option.some.inj (hperson.symm.trans hperson')
    by_cases hwaiting : ⟨job.personItemId, .read⟩ ∈ others
    · exact .inr (.inl (List.mem_cons_of_mem _ hwaiting))
    refine .inr (.inr ⟨?_, ?_, ?_⟩)
    · intro other hother hp
      rcases List.mem_cons.mp hother with rfl | hother
      · rfl
      rcases hread : other.phase.normalized with _ | normalized
      · refine absurd ?_ hwaiting
        rw [← hp, ← Phase.eq_read hread]
        exact hother
      · rw [hfresh ha person hperson hlive other hother hp normalized hread]
    · exact fun row _ _ => .inr ⟨_, List.mem_cons_self, rfl, trivial⟩
    · exact fun _ email _ => .inr ⟨_, List.mem_cons_self, rfl, trivial⟩
  · refine h.replace List.length_set (fun p hne => List.getElem?_set_ne hne.symm) [] (by simp) ?_
    intro _ person' hperson'
    obtain ⟨hlt, -⟩ := List.getElem?_eq_some_iff.mp hperson
    obtain rfl : { person with skipped := true } = person' :=
      Option.some.inj ((List.getElem?_set_self hlt).symm.trans hperson')
    exact .inl rfl

theorem abort (h : Inv toLowerCase alike kept { s with jobs := job :: others }) :
    Inv toLowerCase alike kept { s with jobs := ⟨job.personItemId, .read⟩ :: others } :=
  h.replace rfl (fun _ _ => rfl) [.read] (by simp [Phase.Ok, Phase.inserted])
    fun _ _ _ => .inr (.inl List.mem_cons_self)

theorem select (h : Inv toLowerCase alike kept { s with jobs := job :: others })
    (hphase : job.phase = .select normalized) :
    Inv toLowerCase alike kept (s.select job.personItemId others normalized) := by
  refine h.setPhase (by rw [hphase]; rfl) rfl (fun _ => List.mem_of_mem_filter) ?_ ?_ ?_
  · simpa [Sys.keys, hphase, Phase.inserted] using h.unique
  · exact fun row _ _ _ => .inr trivial
  · intro email hemail _
    by_cases hother : s.rows.any fun row => row.email = email && row.itemId ≠ job.personItemId
    · obtain ⟨row, hrow, hemail⟩ := List.any_eq_true.mp hother
      simp only [Bool.and_eq_true, decide_eq_true_eq] at hemail
      exact .inl (List.mem_map.mpr ⟨row, hrow, hemail.1⟩)
    · exact .inr (List.mem_filter.mpr ⟨hemail, by simpa using hother⟩)

theorem delete {toClaim : List String}
    (h : Inv toLowerCase alike kept { s with jobs := job :: others })
    (hphase : job.phase = .delete normalized toClaim)
    (hs : s.delete job.personItemId others normalized toClaim = some s') :
    Inv toLowerCase alike kept s' := by
  have hok := (h.jobs job List.mem_cons_self).2
  rw [hphase] at hok
  unfold Sys.delete at hs
  dsimp only at hs
  split_ifs at hs
  obtain rfl := Option.some.inj hs
  refine h.setPhase (by rw [hphase]; rfl) rfl ⟨?_, hok, List.nil_subset _⟩ ?_ ?_ ?_
  · intro email hemail
    obtain ⟨row, hrow, rfl⟩ := List.mem_map.mp hemail
    simpa using (Bool.and_eq_true_iff.mp (List.mem_filter.mp hrow).2).2
  · simpa [Sys.keys, hphase, Phase.inserted] using h.unique
  · intro row hrow hp _
    by_cases hlisted : row.email ∈ normalized
    · exact .inl hlisted
    · exact .inr (List.mem_map.mpr ⟨row, List.mem_filter.mpr ⟨hrow, by simp [hp, hlisted]⟩, rfl⟩)
  · intro email _ hclaims
    rw [hphase] at hclaims
    exact .inr (.inl hclaims)

theorem insert (h : Inv toLowerCase alike kept { s with jobs := job :: others })
    (hphase : job.phase = .insert normalized deleted (email :: rest) inserted)
    (hs : s.insert job.personItemId others normalized deleted email rest inserted = some s') :
    Inv toLowerCase alike kept s' := by
  have hok := (h.jobs job List.mem_cons_self).2
  rw [hphase] at hok
  obtain ⟨hdeleted, hrest, hinserted⟩ := hok
  obtain ⟨hemail, hrest⟩ := List.cons_subset.mp hrest
  unfold Sys.insert at hs
  split_ifs at hs with hblocked hknown
  · obtain rfl := Option.some.inj hs
    refine h.setPhase (by rw [hphase]; rfl) rfl ⟨hdeleted, hrest, hinserted⟩ ?_ ?_ ?_
    · simpa [Sys.keys, hphase, Phase.inserted] using h.unique
    · intro row _ _ hclears
      rw [hphase] at hclears
      exact .inr hclears
    · intro email' _ hclaims
      rw [hphase] at hclaims
      rcases hclaims with hclaims | hclaims
      · rcases List.mem_cons.mp hclaims with rfl | hclaims
        · exact hknown.imp_right .inr
        · exact .inr (.inl hclaims)
      · exact .inr (.inr hclaims)
  · obtain rfl := Option.some.inj hs
    refine h.setPhase (by rw [hphase]; rfl) rfl ⟨hdeleted, hrest, ?_⟩ ?_ ?_ ?_
    · exact List.append_subset.mpr ⟨hinserted, List.cons_subset.mpr ⟨hemail, List.nil_subset _⟩⟩
    · have hperm : (Sys.keys { s with jobs := ⟨job.personItemId, .insert normalized deleted rest
          (inserted ++ [email])⟩ :: others }).Perm
          (email :: Sys.keys { s with jobs := job :: others }) := by
        simp only [Sys.keys, List.flatMap_cons, hphase, Phase.inserted_insert]
        rw [List.append_assoc, ← List.append_assoc _ inserted, ← List.append_assoc _ inserted]
        exact List.perm_middle
      refine hperm.nodup_iff.mpr (List.nodup_cons.mpr ⟨?_, h.unique⟩)
      simp_all [Sys.keys]
    · intro row _ _ hclears
      rw [hphase] at hclears
      exact .inr hclears
    · intro email' _ hclaims
      rw [hphase] at hclaims
      simp only [Phase.Claims, List.mem_cons, List.mem_append] at hclaims ⊢
      tauto

theorem mem_commit {row : IndexRow} :
    row ∈ (s.commit p others deleted inserted).rows ↔
      row ∈ s.rows ∧ ¬(row.itemId = p ∧ row.email ∈ deleted) ∨
        row.itemId = p ∧ row.email ∈ inserted := by
  rcases row with ⟨email, itemId⟩
  simp [Sys.commit]
  tauto

theorem commit (h : Inv toLowerCase alike kept { s with jobs := job :: others })
    (hphase : job.phase = .insert normalized deleted [] inserted)
    (hkeeps : kept → ∀ email ∈ deleted, ∀ p ≠ job.personItemId, ∀ person ∈ s.people[p]?,
      person.skipped = false → email ∈ person.normalized toLowerCase →
        ∃ other ∈ job :: others, other.personItemId = p ∧ other.phase.isEarly = true) :
    Inv toLowerCase alike kept (s.commit job.personItemId others deleted inserted) := by
  obtain ⟨hlt, hok⟩ := h.jobs job List.mem_cons_self
  rw [hphase] at hok
  obtain ⟨hdeleted, -, hinserted⟩ := hok
  refine ⟨?_, fun other hother => h.jobs other (List.mem_cons_of_mem _ hother), ?_, fun ha p => ?_⟩
  · have hkeys : (s.commit job.personItemId others deleted inserted).keys =
        (s.rows.filter fun row => !(row.itemId = job.personItemId && row.email ∈ deleted)).map
          (·.email) ++ (job :: others).flatMap (·.phase.inserted) := by
      simp [Sys.keys, Sys.commit, hphase, Function.comp_def]
    rw [hkeys]
    exact h.unique.sublist ((List.filter_sublist.map _).append_right _)
  · intro row hrow
    rcases mem_commit.mp hrow with ⟨hrow, -⟩ | ⟨hown, -⟩
    · exact h.owners row hrow
    · exact hown ▸ hlt
  rcases eq_or_ne job.personItemId p with rfl | hne
  · intro person hperson
    rcases h.people ha _ person hperson with hskipped | hwaiting | htracked
    · exact .inl hskipped
    · rcases List.mem_cons.mp hwaiting with heq | hwaiting
      · simp [← congrArg Job.phase heq] at hphase
      · exact .inr (.inl hwaiting)
    have hown := htracked.fresh job List.mem_cons_self rfl
    rw [hphase] at hown
    obtain rfl : normalized = person.normalized toLowerCase := Option.some.inj hown
    refine .inr (.inr ⟨?_, ?_, ?_⟩)
    · exact fun other hother => htracked.fresh other (List.mem_cons_of_mem _ hother)
    · intro row hrow hp
      rcases mem_commit.mp hrow with ⟨hrow, hkept⟩ | ⟨-, hnew⟩
      · rcases htracked.listed row hrow hp with hlisted | ⟨other, hother, hop, hclears⟩
        · exact .inl hlisted
        rcases List.mem_cons.mp hother with rfl | hother
        · rw [hphase] at hclears
          exact absurd ⟨hp, hclears⟩ hkept
        · exact .inr ⟨other, hother, hop, hclears⟩
      · exact .inl (hinserted hnew)
    · intro hkept email hemail
      rcases htracked.mapped hkept email hemail with hmapped | ⟨other, hother, hop, hclaims⟩
      · obtain ⟨row, hrow, rfl⟩ := List.mem_map.mp hmapped
        refine .inl (List.mem_map.mpr ⟨row, mem_commit.mpr (.inl ⟨hrow, ?_⟩), rfl⟩)
        exact fun hgone => hdeleted _ hgone.2 hemail
      rcases List.mem_cons.mp hother with rfl | hother
      · rw [hphase] at hclaims
        refine .inl (List.mem_map.mpr ⟨⟨email, other.personItemId⟩, mem_commit.mpr (.inr ⟨rfl, ?_⟩), rfl⟩)
        simpa [Phase.Claims] using hclaims
      · exact .inr ⟨other, hother, hop, hclaims⟩
  · refine (h.people ha p).of_other rfl (fun other hp => (mem_cons_of_ne hne hp).symm) ?_ ?_
    · intro row hrow hp
      rcases mem_commit.mp hrow with ⟨hrow, -⟩ | ⟨hown, -⟩
      · exact hrow
      · exact absurd (hown.symm.trans hp) hne
    · intro hkept person hperson hskipped email hemail hmapped
      obtain ⟨row, hrow, rfl⟩ := List.mem_map.mp hmapped
      by_cases hgone : row.itemId = job.personItemId ∧ row.email ∈ deleted
      · exact .inr (hkeeps hkept _ hgone.2 p hne.symm person hperson hskipped hemail)
      · exact .inl (List.mem_map.mpr ⟨row, mem_commit.mpr (.inl ⟨hrow, hgone⟩), rfl⟩)

theorem advance {i : ℕ} (h : Inv toLowerCase alike kept s)
    (halike : alike → ReadsAlike toLowerCase s (.advance i))
    (hkept : kept → LeavesNobody toLowerCase s (.advance i)) (hjob : s.jobs[i]? = some job)
    (hs : s.advance toLowerCase job (s.jobs.eraseIdx i) = some s') :
    Inv toLowerCase alike kept s' := by
  have hperm := perm_cons_eraseIdx hjob
  have hinv := h.perm hperm
  unfold Sys.advance at hs
  rcases hphase : job.phase with - | normalized | ⟨normalized, toClaim⟩ |
    ⟨normalized, deleted, rest, inserted⟩
  · rw [hphase] at hs
    obtain rfl := Option.some.inj hs
    refine hinv.read fun ha => ?_
    have hread := halike ha job hjob
    rwa [hphase] at hread
  · rw [hphase] at hs
    obtain rfl := Option.some.inj hs
    exact hinv.select hphase
  · rw [hphase] at hs
    exact hinv.delete hphase hs
  rcases rest with _ | ⟨email, rest⟩
  · rw [hphase] at hs
    obtain rfl := Option.some.inj hs
    refine hinv.commit hphase fun hk email hemail p hne person hperson hskipped hlisted => ?_
    have hleaves := hkept hk job hjob
    rw [hphase] at hleaves
    obtain ⟨hlt, -⟩ := List.getElem?_eq_some_iff.mp hperson
    obtain ⟨other, hother, hrest⟩ := hleaves email hemail p hlt hne person hperson hskipped hlisted
    exact ⟨other, hperm.mem_iff.mp hother, hrest⟩
  · rw [hphase] at hs
    exact hinv.insert hphase hs

/-! ## Changes of people -/

theorem write (h : Inv toLowerCase alike kept s) {people : List Person} (hp : p < people.length)
    (hlength : s.people.length ≤ people.length)
    (hpeople : ∀ q ≠ p, people[q]? = s.people[q]?) :
    Inv toLowerCase alike kept (s.write p people) where
  unique := h.unique
  jobs job hjob := by
    rcases List.mem_cons.mp hjob with rfl | hjob
    · exact ⟨hp, trivial⟩
    · exact (h.jobs job hjob).imp_left hlength.trans_lt'
  owners row hrow := hlength.trans_lt' (h.owners row hrow)
  people ha q := by
    rcases eq_or_ne q p with rfl | hne
    · exact fun _ _ => .inr (.inl List.mem_cons_self)
    · exact (h.people ha q).of_rows_eq (hpeople q hne)
        (fun job hq => mem_cons_of_ne hne.symm hq) rfl

theorem setState (h : Inv toLowerCase alike kept s) {state : PersonState}
    (hs : s.setState p state = some s') : Inv toLowerCase alike kept s' := by
  obtain ⟨person, hperson, rfl⟩ := Option.map_eq_some_iff.mp hs
  obtain ⟨hlt, -⟩ := List.getElem?_eq_some_iff.mp hperson
  refine ⟨h.unique, ?_, ?_, fun ha q => ?_⟩
  · simpa using h.jobs
  · simpa using h.owners
  rcases eq_or_ne q p with rfl | hne
  · intro person' hperson'
    obtain rfl : { person with state } = person' :=
      Option.some.inj ((List.getElem?_set_self hlt).symm.trans hperson')
    -- neither what the person lists nor what the jobs have read of it changes
    rcases h.people ha q person hperson with hskipped | hwaiting | htracked
    · exact .inl hskipped
    · exact .inr (.inl hwaiting)
    · exact .inr (.inr ⟨htracked.fresh, htracked.listed, htracked.mapped⟩)
  · exact (h.people ha q).of_rows_eq (List.getElem?_set_ne hne.symm) (fun _ _ => Iff.rfl) rfl

/-! ## Runs -/

theorem init : Inv toLowerCase alike kept init := ⟨List.nodup_nil, nofun, nofun, fun _ => nofun⟩

theorem step {act : Act} (h : Inv toLowerCase alike kept s)
    (halike : alike → ReadsAlike toLowerCase s act) (hkept : kept → LeavesNobody toLowerCase s act)
    (hs : step toLowerCase s act = some s') : Inv toLowerCase alike kept s' := by
  rcases act <;> unfold PersonEmailIndex.step at hs <;> dsimp only at hs
  case create emails =>
    obtain rfl := Option.some.inj hs
    refine h.write (by simp) (by simp) fun q hne => ?_
    rcases Nat.lt_or_gt_of_ne hne with hlt | hgt
    · exact List.getElem?_append_left hlt
    · rw [List.getElem?_eq_none (by simpa using Nat.succ_le_of_lt hgt),
        List.getElem?_eq_none hgt.le]
  case edit p emails =>
    split_ifs at hs with hlive
    obtain rfl := Option.some.inj hs
    obtain ⟨person, hperson, -⟩ := (Option.any_eq_true _ _).mp hlive
    obtain ⟨hlt, -⟩ := List.getElem?_eq_some_iff.mp hperson
    exact h.write (by simpa using hlt) (by simp) fun q hne => List.getElem?_set_ne hne.symm
  case trash p => exact h.setState hs
  case restore p => exact h.setState hs
  case advance i =>
    obtain ⟨job, hjob, hs⟩ := Option.bind_eq_some_iff.mp hs
    exact h.advance halike hkept hjob hs
  case abort i =>
    obtain ⟨job, hjob, rfl⟩ := Option.map_eq_some_iff.mp hs
    exact (h.perm (perm_cons_eraseIdx hjob)).abort

theorem mapped (h : Inv toLowerCase True True s) : Mapped toLowerCase s := by
  intro hjobs person hperson hskipped email hemail
  obtain ⟨p, hp⟩ := List.mem_iff_getElem?.mp hperson
  rcases h.people trivial p person hp with hs | hwaiting | htracked
  · simp [hskipped] at hs
  · simp [hjobs] at hwaiting
  rcases htracked.mapped trivial email hemail with hmapped | ⟨job, hjob, -⟩
  · obtain ⟨row, hrow, rfl⟩ := List.mem_map.mp hmapped
    refine ⟨row, ⟨hrow, rfl⟩, fun other hother => ?_⟩
    exact List.inj_on_of_nodup_map h.unique.of_append_left hother.1 hrow hother.2
  · simp [hjobs] at hjob

theorem listed (h : Inv toLowerCase True kept s) : Listed toLowerCase s := by
  intro hjobs row hrow
  obtain ⟨person, hperson⟩ : ∃ person, s.people[row.itemId]? = some person :=
    ⟨_, List.getElem?_eq_getElem (h.owners row hrow)⟩
  refine ⟨person, hperson, fun hskipped => ?_⟩
  rcases h.people trivial _ person hperson with hs | hwaiting | htracked
  · simp [hskipped] at hs
  · simp [hjobs] at hwaiting
  rcases htracked.listed row hrow rfl with hlisted | ⟨job, hjob, -⟩
  · exact hlisted
  · simp [hjobs] at hjob

theorem of_reach {ok : Sys → Act → Prop} 
    (hs : Reach (PersonEmailIndex.step toLowerCase) ok PersonEmailIndex.init s)
    (halike : ∀ s act, ok s act → alike → ReadsAlike toLowerCase s act)
    (hkept : ∀ s act, ok s act → kept → LeavesNobody toLowerCase s act) :
    Inv toLowerCase alike kept s :=
  hs.invariant .init fun _ _ _ hi hok hs => hi.step (halike _ _ hok) (hkept _ _ hok) hs

end Inv

/-- Whatever overlaps, an address has one owner.  Where the jobs of one person that overlap have read
the same addresses, the rows at rest are of what people list; where nobody is left behind with an
address that another gives up either, there are rows for all that they list. -/
theorem reflects_of_reach (toLowerCase : String → String) :
    (∀ s, Reach (step toLowerCase) (fun _ _ => True) init s → Unique s) ∧
    (∀ s, Reach (step toLowerCase) (ReadsAlike toLowerCase) init s → Listed toLowerCase s) ∧
    ∀ s, Reach (step toLowerCase)
      (fun s act => ReadsAlike toLowerCase s act ∧ LeavesNobody toLowerCase s act) init s →
      Mapped toLowerCase s := by
  refine ⟨fun s hs => ?_, fun s hs => ?_, fun s hs => ?_⟩
  · have hinv : Inv toLowerCase False False s := .of_reach hs (fun _ _ _ => False.elim)
      fun _ _ _ => False.elim
    exact ⟨hinv.unique.of_append_left, hinv.owners⟩
  · have hinv : Inv toLowerCase True False s := .of_reach hs (fun _ _ h _ => h)
      fun _ _ _ => False.elim
    exact hinv.listed
  · have hinv : Inv toLowerCase True True s := .of_reach hs (fun _ _ hok _ => And.left hok)
      fun _ _ hok _ => And.right hok
    exact hinv.mapped

def undisturbedCheck (toLowerCase : String → String) (s : Sys) : Act → Bool
  | .advance i => s.jobs[i]?.all fun job =>
    match job.phase with
    | .read => s.people[job.personItemId]?.all fun person => person.state ≠ .live ||
      (s.jobs.eraseIdx i).all fun other => other.personItemId ≠ job.personItemId ||
        other.phase.normalized.all (· = person.normalized toLowerCase)
    | .insert _ deleted [] _ => deleted.all fun email => (List.range s.people.length).all fun p =>
      p = job.personItemId || s.people[p]?.all fun person => person.skipped ||
        email ∉ person.normalized toLowerCase ||
          s.jobs.any fun other => other.personItemId = p && other.phase.isEarly
    | _ => true
  | _ => true

theorem undisturbed_of_check (s : Sys) (act : Act)
    (h : undisturbedCheck toLowerCase s act = true) :
    ReadsAlike toLowerCase s act ∧ LeavesNobody toLowerCase s act := by
  rcases act
  case advance i =>
    refine ⟨fun job hjob => ?_, fun job hjob => ?_⟩
    all_goals
      have hall := (Option.all_eq_true _ _).mp h job hjob
      rcases hphase : job.phase with - | normalized | ⟨normalized, toClaim⟩ |
        ⟨normalized, deleted, - | ⟨email, rest⟩, inserted⟩
      all_goals rw [hphase] at hall
      all_goals try trivial
    · intro person hperson hlive other hother hp normalized hread
      have hchecked := (Option.all_eq_true _ _).mp hall person hperson
      simp only [hlive, ne_eq, not_true_eq_false, decide_false, Bool.false_or] at hchecked
      simpa [hp, Option.mem_def.mp hread] using List.all_eq_true.mp hchecked other hother
    · intro email hemail p hp hne person hperson hskipped hlisted
      have hchecked := List.all_eq_true.mp (List.all_eq_true.mp hall email hemail) p
        (List.mem_range.mpr hp)
      simpa [hne, Option.mem_def.mp hperson, hskipped, hlisted] using hchecked
  all_goals exact ⟨trivial, trivial⟩

/-- The mapping of the letters that the runs below have. -/
def lowerLetters (text : String) : String := String.ofList (text.toList.map Char.toLower)

/-- Ada and Bob list one address, and Ada's job claims it while Bob's waits.  Ada drops another of
hers and goes to the trash. -/
def sharedAddress : List Act :=
  [.create (some "Ada@x.org, team@x.org"), .create (some "team@x.org"), .advance 1, .advance 0,
    .advance 1, .advance 0, .advance 1, .advance 0, .advance 0, .advance 1, .advance 1, .advance 0,
    .advance 0, .edit 0 (some "TEAM@x.org"), .advance 0, .advance 0, .advance 0, .advance 0,
    .advance 0, .trash 0]

theorem sharedAddress_reflects : ∃ s, runActs (step lowerLetters) init sharedAddress = some s ∧
    s.jobs = [] ∧ s.rows = [⟨"team@x.org", 0⟩] ∧ Unique s ∧ Listed lowerLetters s ∧
      Mapped lowerLetters s := by
  obtain ⟨s, hs⟩ := Option.isSome_iff_exists.mp (show (runChecked (step lowerLetters)
    (undisturbedCheck lowerLetters) init sharedAddress).isSome = true by decide +kernel)
  obtain ⟨hunique, hlisted, hmapped⟩ := reflects_of_reach lowerLetters
  exact ⟨s, runActs_of_runChecked hs,
    eq_of_map_eq (f := Sys.jobs) hs (by decide +kernel),
    eq_of_map_eq (f := Sys.rows) hs (by decide +kernel),
    hunique s (.of_runActs (runActs_of_runChecked hs)),
    hlisted s (.of_runChecked (fun s act h => (undisturbed_of_check s act h).1) hs),
    hmapped s (.of_runChecked undisturbed_of_check hs)⟩

/-- A person goes to the trash, and keeps the address. -/
theorem trashed_not_exact : ¬∀ (toLowerCase : String → String) (s : Sys),
    Reach (step toLowerCase) (fun _ _ => True) init s → s.jobs = [] → Exact toLowerCase s := by
  intro hall
  obtain ⟨s, hs⟩ := Option.isSome_iff_exists.mp (show (runActs (step lowerLetters) init
    [.create (some "ada@x.org"), .advance 0, .advance 0, .advance 0, .advance 0, .advance 0,
      .trash 0]).isSome = true by decide +kernel)
  have hjobs : s.jobs = [] := eq_of_map_eq (f := Sys.jobs) hs (by decide +kernel)
  have hrows : s.rows = [⟨"ada@x.org", 0⟩] := eq_of_map_eq (f := Sys.rows) hs (by decide +kernel)
  have hpeople : s.people = [⟨.trashed, some "ada@x.org", false⟩] :=
    eq_of_map_eq (f := Sys.people) hs (by decide +kernel)
  obtain ⟨person, hperson, hlive, -⟩ :=
    (hall _ s (.of_runActs hs) hjobs).2 ⟨"ada@x.org", 0⟩ (by simp [hrows])
  obtain rfl : (⟨.trashed, some "ada@x.org", false⟩ : Person) = person := by
    simpa [hpeople] using hperson
  simp at hlive

end PersonEmailIndex

end Semprec
