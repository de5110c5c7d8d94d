import ReactiveVars.Main
import ReactiveVars.Settings.Document
import ReactiveVars.Exchange
import ReactiveVars.Proofs.Application.Insides
import ReactiveVars.Proofs.Backend.Creators
import ReactiveVars.Proofs.Backend.Echoes
import ReactiveVars.Proofs.Backend.Refusals
import ReactiveVars.Proofs.Backend.RefusedUpdates
import ReactiveVars.Proofs.Backend.Sightings
import ReactiveVars.Proofs.Backend.StoredPaths
import ReactiveVars.Proofs.Backend.Subtrees
import ReactiveVars.Proofs.Backend.Suspension
import ReactiveVars.Proofs.Frontend.Destructions
import ReactiveVars.Proofs.Frontend.Replay
import ReactiveVars.Proofs.Frontend.Subscriptions
import ReactiveVars.Proofs.Frontend.Unbinding
import ReactiveVars.Proofs.Path.Renderings
import ReactiveVars.Proofs.Session.FreshNumbers
import ReactiveVars.Proofs.Session.Relays
import ReactiveVars.Proofs.Variable.Splitting
import ReactiveVars.Proofs.Wire.Frames
import ReactiveVars.Proofs.Variable.WatchEdges
import ReactiveVars.Proofs.Backend.Departures
import ReactiveVars.Proofs.Delivery.Deadlines
import ReactiveVars.Proofs.Frontend.Outboxes
import ReactiveVars.Proofs.Frontend.Rollbacks
import ReactiveVars.Proofs.Frontend.Triggers
import ReactiveVars.Proofs.Frontend.ErrorMarks
import ReactiveVars.Proofs.Application.StepsBack
