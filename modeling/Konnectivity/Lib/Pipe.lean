/-!
# A pipe between two goroutines

A producer reads items from a source and puts them into a channel, one at a
time; a consumer takes them out and delivers them. Either of them may stop:
the producer with an item it could not put, the consumer with one it could not
deliver, and what is in the channel is then discarded.

`Inv` is the account of the items: those delivered, those under way in the
order in which they will arrive, and those the producer gave up at the end.
While `flowing` holds the consumer has dropped nothing, and while `reading`
holds neither has the producer. So what is delivered is always a prefix of
what was read, and all of it once nothing is under way.
-/

namespace Konnectivity.Lib

structure Pipe (α : Type) where
  /-- What the producer has read. -/
  read : List α
  /-- What it has still to put into the channel. -/
  pend : List α
  /-- The channel. -/
  buf : List α
  /-- What the consumer has in hand. -/
  hand : List α
  /-- What it has delivered. -/
  sent : List α

namespace Pipe

variable {α : Type} {p : Pipe α} {flowing flowing' reading reading' : Prop} {a : α} {rest : List α}

def Inv (p : Pipe α) (flowing reading : Prop) : Prop :=
  ∃ mid lost, p.read = p.sent ++ mid ++ p.buf ++ p.pend ++ lost ∧ (flowing → mid = p.hand) ∧
    (reading → lost = [])

theorem Inv.weaken (h : p.Inv flowing reading) (hf : flowing' → flowing) (hr : reading' → reading) :
    p.Inv flowing' reading' := by
  obtain ⟨mid, lost, haccount, hmid, hlost⟩ := h
  exact ⟨mid, lost, haccount, fun h => hmid (hf h), fun h => hlost (hr h)⟩

/-- The producer reads an item. -/
theorem Inv.read (h : p.Inv flowing reading) (hr : reading) (hpend : p.pend = []) (a : α) :
    Inv { p with read := p.read ++ [a], pend := [a] } flowing reading := by
  obtain ⟨mid, lost, haccount, hmid, hlost⟩ := h
  refine ⟨mid, [], ?_, hmid, fun _ => rfl⟩
  show p.read ++ [a] = _
  rw [haccount, hlost hr, hpend]
  simp

/-- The producer puts what it has into the channel. -/
theorem Inv.put (h : p.Inv flowing reading) :
    Inv { p with buf := p.buf ++ p.pend, pend := [] } flowing reading := by
  obtain ⟨mid, lost, haccount, hmid, hlost⟩ := h
  refine ⟨mid, lost, ?_, hmid, hlost⟩
  show p.read = _
  rw [haccount]
  simp

/-- The producer gives up. -/
theorem Inv.giveUp (h : p.Inv flowing reading) : Inv { p with pend := [] } flowing False := by
  obtain ⟨mid, lost, haccount, hmid, -⟩ := h
  refine ⟨mid, p.pend ++ lost, ?_, hmid, False.elim⟩
  show p.read = _
  rw [haccount]
  simp

/-- The consumer takes an item. -/
theorem Inv.take (h : p.Inv flowing reading) (hbuf : p.buf = a :: rest) (hhand : p.hand = []) :
    Inv { p with buf := rest, hand := [a] } flowing reading := by
  obtain ⟨mid, lost, haccount, hmid, hlost⟩ := h
  refine ⟨mid ++ [a], lost, ?_, fun hf => ?_, hlost⟩
  · show p.read = _
    rw [haccount, hbuf]
    simp
  · rw [hmid hf, hhand]
    rfl

/-- The consumer delivers what it has in hand. -/
theorem Inv.deliver (h : p.Inv flowing reading) (hf : flowing) :
    Inv { p with sent := p.sent ++ p.hand, hand := [] } flowing reading := by
  obtain ⟨mid, lost, haccount, hmid, hlost⟩ := h
  refine ⟨[], lost, ?_, fun _ => rfl, hlost⟩
  show p.read = _
  rw [haccount, hmid hf]
  simp

/-- The consumer drops what it has in hand. -/
theorem Inv.drop (h : p.Inv flowing reading) : Inv { p with hand := [] } False reading := by
  obtain ⟨mid, lost, haccount, -, hlost⟩ := h
  exact ⟨mid, lost, haccount, False.elim, hlost⟩

/-- An item of the channel is discarded. -/
theorem Inv.discard (h : p.Inv flowing reading) (hbuf : p.buf = a :: rest) :
    Inv { p with buf := rest } False reading := by
  obtain ⟨mid, lost, haccount, -, hlost⟩ := h
  refine ⟨mid ++ [a], lost, ?_, False.elim, hlost⟩
  show p.read = _
  rw [haccount, hbuf]
  simp

theorem Inv.sent_prefix (h : p.Inv flowing reading) : p.sent <+: p.read := by
  obtain ⟨mid, lost, haccount, -, -⟩ := h
  exact ⟨mid ++ (p.buf ++ (p.pend ++ lost)), by rw [haccount]; simp⟩

/-- Nothing was read. -/
theorem Inv.buf_nil (h : p.Inv flowing reading) (hread : p.read = []) : p.buf = [] := by
  obtain ⟨mid, lost, haccount, -, -⟩ := h
  rw [hread] at haccount
  simp at haccount
  exact haccount.2.2.1

/-- Nothing is under way. -/
theorem Inv.complete (h : p.Inv flowing reading) (hf : flowing) (hr : reading) (hhand : p.hand = [])
    (hbuf : p.buf = []) (hpend : p.pend = []) : p.sent = p.read := by
  obtain ⟨mid, lost, haccount, hmid, hlost⟩ := h
  rw [haccount, hmid hf, hlost hr, hhand, hbuf, hpend]
  simp

end Pipe

end Konnectivity.Lib
