import FileFixture.Log.Logbook
import FileFixture.Session
import FileFixture.Proofs.Spec.Ancestry
import FileFixture.Proofs.Spec.Reading
import FileFixture.Proofs.Fixture.History
import FileFixture.Proofs.Fixture.Tree
import FileFixture.Proofs.Fixture.Selection
import FileFixture.Proofs.Fixture.Isolation
import FileFixture.Proofs.Fixture.Tour
import FileFixture.Proofs.Fixture.Bare
import FileFixture.Proofs.Fixture.Injection
import FileFixture.Proofs.Fixture.Exploration
import FileFixture.Proofs.Fixture.Root
import FileFixture.Proofs.Session.Muted
import FileFixture.Proofs.Fixture.Diagnostics
import FileFixture.Proofs.Session.Memory
import FileFixture.Proofs.Spec.Composition
import FileFixture.Proofs.Entry.RoundTrip
import FileFixture.Proofs.Settings.Reading
import FileFixture.Proofs.Fixture.Construction
import FileFixture.Proofs.Path.Components
import FileFixture.Proofs.Fixture.Commutation
import FileFixture.Proofs.Fixture.Exactness
import FileFixture.Proofs.Path.Canonical
import FileFixture.Proofs.Spec.Recovery
import FileFixture.Proofs.Spec.Boundary
import FileFixture.Proofs.Spec.TagValues
import FileFixture.Proofs.Fixture.Absolute
import FileFixture.Proofs.Spec.Balance
import FileFixture.Proofs.Spec.Form
import FileFixture.Proofs.Spec.Offsets
