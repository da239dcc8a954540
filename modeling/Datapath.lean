import Datapath.Adder.Sum
import Datapath.Builder.Gates
import Datapath.Cli.Machine
import Datapath.Generator.Adder
import Datapath.Generator.Multiplier
import Datapath.Logic
import Datapath.Main
import Datapath.Multiplier.Dadda
import Datapath.Multiplier.PartialProducts
import Datapath.Netlist.Listing
import Datapath.Netlist.Summary
import Datapath.Parameters
import Datapath.Proofs.AdderRuns
import Datapath.Proofs.AdderSizes
import Datapath.Proofs.Batches
import Datapath.Proofs.CommandRuns
import Datapath.Proofs.Distinctness
import Datapath.Proofs.Evaluation
import Datapath.Proofs.Layers
import Datapath.Proofs.MultiplierRuns
import Datapath.Proofs.Outcomes
import Datapath.Proofs.Parts
import Datapath.Proofs.Printability
import Datapath.Proofs.Queues
import Datapath.Proofs.RecodedHeights
import Datapath.Proofs.Rows
import Datapath.Proofs.Sampling
import Datapath.Proofs.Transposition
import Datapath.Proofs.Worklist
import Datapath.Simulation.Random
import Datapath.Simulation.Stimulus
import Datapath.Technology
import Datapath.Toml.Document
import Datapath.Verilog.OfNetlist
